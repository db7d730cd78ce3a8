import GridWitness.Client.FlushLaws

namespace GridWitness.Client

open Server Library

universe u

variable {Line : Type u} (py : Python) (codec : Codec Line)

/-- A row went out in a push that was accepted, or refused for good. -/
def Settled (trace : List (Effect Line)) (r : Captured) : Prop :=
  (∃ chunk answer, .drained chunk answer ∈ trace ∧ r.2 ∈ rowsOf r.1 chunk ∧ answer.Settles py) ∨
    ∃ batch answer, .sent batch answer ∈ trace ∧ r ∈ batch ∧ answer.Settles py

def Buffered (lines : List Line) (r : Captured) : Prop := ∃ l ∈ lines, codec.item l = .value r.item

/-- Every line is the record of a row. -/
def Intact (lines : List Line) : Prop := ∀ l ∈ lines, ∃ r : Captured, codec.item l = .value r.item

namespace Flush

/-- The rows a flush still has in hand. -/
def inHand (f : Flush) : List Captured :=
  match f.phase with
  | .ended _ => []
  | _ => f.batch

variable (c : Coordinator Line) (f : Flush)

/-- A push succeeds or raises the error of the client, and a prune drops no row. -/
def Supposed (a : Answer) : Prop :=
  match f.phase with
  | .push _ | .send => a.exchange.Handled py
  | .prune _ => ∃ buffer, c.buffer.prune codec py a.now = .ok (buffer, 0)
  | _ => True

/-- A commit finds at the head of the file only rows of the chunk its flush has pushed. -/
def Aligned : Prop :=
  match f.phase with
  | .commit chunk _ =>
    ∀ l ∈ c.buffer.lines.take chunk.length, ∃ item ∈ chunk, codec.item l = .value item
  | _ => True

/-- What a flush relies on: its chunk is settled, and so is its batch or it is in the file. -/
def Honest (lines : List Line) (trace : List (Effect Line)) : Prop :=
  match f.phase with
  | .commit chunk _ => ∀ r : Captured, r.item ∈ chunk → Settled py trace r
  | .prune _ | .echo => ∀ r ∈ f.batch, Buffered codec lines r ∨ Settled py trace r
  | _ => True

end Flush

section Step

variable {py codec} {c c' : Coordinator Line} {f f' : Flush} {a : Answer} {effect : Option (Effect Line)}
  {trace older : List (Effect Line)} {r : Captured}

theorem Settled.mono (h : Settled py older r) (hsub : older ⊆ trace) : Settled py trace r := by
  rcases h with ⟨chunk, answer, hmem, h⟩ | ⟨batch, answer, hmem, h⟩
  · exact Or.inl ⟨chunk, answer, hsub hmem, h⟩
  · exact Or.inr ⟨batch, answer, hsub hmem, h⟩

theorem buffered_append {lines added : List Line} :
    Buffered codec (lines ++ added) r ↔ Buffered codec lines r ∨ Buffered codec added r := by
  simp [Buffered, or_and_right, exists_or]

theorem Intact.drop {lines : List Line} (h : Intact codec lines) (n : Nat) : Intact codec (lines.drop n) :=
  fun l hl => h l (List.mem_of_mem_drop hl)

theorem Intact.append {lines : List Line} (h : Intact codec lines) (rows : List Captured) (now : String) :
    Intact codec (lines ++ rows.map (codec.record now)) := by
  intro l hl
  rcases List.mem_append.mp hl with hl | hl
  · exact h l hl
  · obtain ⟨r, -, rfl⟩ := List.mem_map.mp hl
    exact ⟨r, Codec.item_record _ r⟩

/-- What one step of a flush keeps. -/
structure Keeps (py : Python) (codec : Codec Line) (c : Coordinator Line) (f : Flush)
    (trace : List (Effect Line)) (c' : Coordinator Line) (f' : Flush) (effect : Option (Effect Line)) :
    Prop where
  pending : c'.pending = c.pending
  buffered : ∀ r, Buffered codec c.buffer.lines r →
    Buffered codec c'.buffer.lines r ∨ Settled py trace r
  inHand : ∀ r ∈ f.inHand, r ∈ f'.inHand ∨ Buffered codec c'.buffer.lines r ∨ Settled py trace r
  intact : Intact codec c'.buffer.lines
  honest : f'.Honest py codec c'.buffer.lines (effect.toList ++ trace)
  commits : ∀ lines answer, effect = some (.committed lines answer) →
    ∀ r, Buffered codec lines r → Settled py trace r

/-- A step that leaves the file alone. -/
theorem keeps_of_buffer (hpending : c'.pending = c.pending) (hbuffer : c'.buffer = c.buffer)
    (hintact : Intact codec c.buffer.lines)
    (hhand : ∀ r ∈ f.inHand, r ∈ f'.inHand ∨ Buffered codec c.buffer.lines r ∨ Settled py trace r)
    (hhonest : f'.Honest py codec c.buffer.lines (effect.toList ++ trace))
    (hcommits : ∀ lines answer, effect ≠ some (.committed lines answer)) :
    Keeps py codec c f trace c' f' effect where
  pending := hpending
  buffered := fun _ hr => Or.inl (hbuffer ▸ hr)
  inHand := hbuffer ▸ hhand
  intact := hbuffer ▸ hintact
  honest := hbuffer ▸ hhonest
  commits := fun lines answer heq => absurd heq (hcommits lines answer)

theorem move_keeps (hmove : Move py codec c f a c' f' effect) (hintact : Intact codec c.buffer.lines)
    (hhonest : f.Honest py codec c.buffer.lines trace) (hsupposed : f.Supposed py codec c a)
    (haligned : f.Aligned codec c) : Keeps py codec c f trace c' f' effect := by
  obtain ⟨batch, phase⟩ := f
  cases hmove with
  | peekRaised e hphase hpeek =>
    have hreadable : ∀ l ∈ c.buffer.lines, ∃ item, codec.item l = .value item :=
      fun l hl => (hintact l hl).imp' Captured.item fun _ => id
    obtain ⟨chunk, hchunk⟩ := Codec.items_of_readable hreadable drainChunk
    rw [DiskBuffer.peek, hchunk] at hpeek
    cases hpeek
  | peekNothing hphase hpeek hbatch =>
    cases hphase
    have hbatch : batch = [] := hbatch
    subst hbatch
    exact keeps_of_buffer rfl rfl hintact nofun nofun nofun
  | peekEmpty hphase hpeek hbatch =>
    cases hphase
    exact keeps_of_buffer rfl rfl hintact (fun r hr => Or.inl hr) trivial nofun
  | peekChunk chunk hphase hpeek hchunk =>
    cases hphase
    exact keeps_of_buffer rfl rfl hintact (fun r hr => Or.inl hr) trivial nofun
  | pushSettled chunk total hphase hsettles =>
    cases hphase
    refine keeps_of_buffer rfl rfl hintact (fun r hr => Or.inl hr) (fun r hr => ?_) nofun
    exact Or.inl ⟨chunk, a.exchange, List.mem_cons_self, mem_rowsOf hr, hsettles⟩
  | pushFailed chunk hphase hhandled hfails hbatch =>
    cases hphase
    exact keeps_of_buffer rfl rfl hintact (fun r hr => Or.inl hr) trivial nofun
  | pushOffline chunk hphase hhandled hfails hbatch =>
    cases hphase
    have hbatch : batch = [] := hbatch
    subst hbatch
    exact keeps_of_buffer rfl rfl hintact nofun trivial nofun
  | pushRaised chunk e hphase hhandled =>
    cases hphase
    exact absurd hsupposed hhandled
  | commit chunk answer hphase =>
    cases hphase
    have hremoved : ∀ r, Buffered codec (c.buffer.lines.take chunk.length) r → Settled py trace r := by
      rintro r ⟨l, hl, hr⟩
      obtain ⟨item, hitem, hvalue⟩ := haligned l hl
      rw [hr] at hvalue
      cases hvalue
      exact hhonest r hitem
    refine ⟨rfl, fun r hr => ?_, fun r hr => Or.inl hr, ?_, trivial, ?_⟩
    · rw [← List.take_append_drop chunk.length c.buffer.lines, buffered_append] at hr
      rw [DiskBuffer.lines_commit]
      exact hr.symm.imp_right (hremoved r)
    · rw [DiskBuffer.lines_commit]
      exact hintact.drop chunk.length
    · rintro lines answer heq r hr
      cases heq
      exact hremoved r hr
  | sendSettled total online hphase hsettles =>
    cases hphase
    refine keeps_of_buffer rfl rfl hintact (fun r hr => Or.inl hr) (fun r hr => Or.inr ?_) nofun
    exact Or.inr ⟨batch, a.exchange, List.mem_cons_self, hr, hsettles⟩
  | sendFailed hphase hhandled hfails =>
    cases hphase
    exact keeps_of_buffer rfl rfl hintact (fun r hr => Or.inl hr) trivial nofun
  | sendRaised e hphase hhandled =>
    cases hphase
    exact absurd hsupposed hhandled
  | append drained hphase =>
    cases hphase
    refine ⟨rfl, fun r hr => ?_, fun r hr => Or.inl hr, ?_, fun r hr => ?_, nofun⟩
    · rw [DiskBuffer.lines_append, buffered_append]
      exact Or.inl (Or.inl hr)
    · rw [DiskBuffer.lines_append]
      exact hintact.append batch (py.iso a.now)
    · refine Or.inl ⟨codec.record (py.iso a.now) r, ?_, Codec.item_record _ r⟩
      rw [DiskBuffer.lines_append]
      exact List.mem_append_right _ (List.mem_map_of_mem hr)
  | pruneRaised drained e hphase hprune =>
    cases hphase
    obtain ⟨buffer, hnone⟩ := hsupposed
    rw [hprune] at hnone
    cases hnone
  | pruned drained buffer dropped phase' hphase hprune hphase' =>
    cases hphase
    obtain ⟨buffer', hnone⟩ := hsupposed
    rw [hprune] at hnone
    cases hnone
    have hsame : buffer = c.buffer := DiskBuffer.prune_zero hprune
    cases drained with
    | false =>
      subst hphase'
      exact keeps_of_buffer rfl hsame hintact (fun r hr => Or.inr (hhonest r hr)) trivial nofun
    | true =>
      subst hphase'
      refine keeps_of_buffer rfl hsame hintact (fun r hr => Or.inl hr) (fun r hr => ?_) nofun
      exact (hhonest r hr).imp_right (·.mono (List.subset_append_right _ _))
  | echo hphase =>
    cases hphase
    exact keeps_of_buffer rfl rfl hintact (fun r hr => Or.inr (hhonest r hr)) trivial nofun
  | ended raised hphase =>
    cases hphase
    exact keeps_of_buffer rfl rfl hintact (fun r hr => Or.inl hr) trivial nofun

end Step

def Event.rows : Event → List Captured
  | .capture rows => rows
  | _ => []

namespace World

variable (x : World Line)

/-- A row is in memory, in a flush, in the buffer, or settled. -/
def Accounted (r : Captured) : Prop :=
  r ∈ x.coordinator.pending ∨ (∃ f ∈ x.flushes, r ∈ f.inHand) ∨
    Buffered codec x.coordinator.buffer.lines r ∨ Settled py x.trace r

/-- Nothing is lost, and no commit removed a row that was not settled before. -/
def Safe : Prop :=
  (∀ r ∈ x.captured, x.Accounted py codec r) ∧
    ∀ lines answer older, .committed lines answer :: older <:+ x.trace →
      ∀ r, Buffered codec lines r → Settled py older r

def Supposed : Event → Prop
  | .resume i a =>
    match x.flushes[i]? with
    | some f => f.Supposed py codec x.coordinator a
    | none => True
  | _ => True

def Aligned : Event → Prop
  | .resume i _ =>
    match x.flushes[i]? with
    | some f => f.Aligned codec x.coordinator
    | none => True
  | _ => True

structure Inv : Prop where
  safe : x.Safe py codec
  intact : Intact codec x.coordinator.buffer.lines
  honest : ∀ f ∈ x.flushes, f.Honest py codec x.coordinator.buffer.lines x.trace

variable {py codec x}

theorem start_inv {c : Coordinator Line} {buffered : List Captured}
    (hintact : Intact codec c.buffer.lines)
    (hbuffered : ∀ r ∈ buffered, Buffered codec c.buffer.lines r) :
    (start c buffered).Inv py codec where
  safe := ⟨fun r hr => Or.inr (Or.inr (Or.inl (hbuffered r hr))),
    fun _ _ _ h => absurd (List.suffix_nil.mp h) (List.cons_ne_nil _ _)⟩
  intact := hintact
  honest := nofun

theorem capture_inv (hx : x.Inv py codec) (rows : List Captured) :
    (x.step py codec (.capture rows)).Inv py codec := by
  obtain ⟨⟨haccounted, hcommits⟩, hintact, hhonest⟩ := hx
  refine ⟨⟨fun r hr => ?_, hcommits⟩, hintact, hhonest⟩
  rcases List.mem_append.mp hr with hr | hr
  · exact (haccounted r hr).imp_left fun hin => List.mem_append_left _ hin
  · exact Or.inl (List.mem_append_right _ hr)

theorem timer_inv (hx : x.Inv py codec) : (x.step py codec .timer).Inv py codec := by
  obtain ⟨⟨haccounted, hcommits⟩, hintact, hhonest⟩ := hx
  refine ⟨⟨fun r hr => ?_, hcommits⟩, hintact, fun f hf => ?_⟩
  · rcases haccounted r hr with hin | ⟨f, hf, hin⟩ | hrest
    · exact Or.inr (Or.inl ⟨_, List.mem_append_right _ (List.mem_singleton_self _), hin⟩)
    · exact Or.inr (Or.inl ⟨f, List.mem_append_left _ hf, hin⟩)
    · exact Or.inr (Or.inr hrest)
  · rcases List.mem_append.mp hf with hf | hf
    · exact hhonest f hf
    · cases List.mem_singleton.mp hf
      trivial

theorem honest_mono {f : Flush} {ls ls' : List Line} {trace trace' : List (Effect Line)}
    (hbuffered : ∀ r, Buffered codec ls r → Buffered codec ls' r ∨ Settled py trace r)
    (hsub : trace ⊆ trace') (h : f.Honest py codec ls trace) : f.Honest py codec ls' trace' := by
  have hkept : ∀ r, Buffered codec ls r ∨ Settled py trace r →
      Buffered codec ls' r ∨ Settled py trace' r := by
    rintro r (hr | hr)
    · exact (hbuffered r hr).imp_right (·.mono hsub)
    · exact Or.inr (hr.mono hsub)
  obtain ⟨batch, phase⟩ := f
  cases phase with
  | commit chunk answer => exact fun r hr => (h r hr).mono hsub
  | prune | echo => exact fun r hr => hkept r (h r hr)
  | _ => trivial

theorem step_resume {i : Nat} {f : Flush} (hf : x.flushes[i]? = some f) (a : Answer) :
    x.step py codec (.resume i a) =
      let (c, f, effect) := x.coordinator.resume py codec f a
      ⟨c, x.flushes.set i f, effect.toList ++ x.trace, x.captured⟩ := by
  simp only [step, hf]

theorem mem_set_of_ne {fs : List Flush} {i : Nat} {f f' g : Flush} (hf : fs[i]? = some f)
    (hg : g ∈ fs) (hne : g ≠ f) : g ∈ fs.set i f' := by
  obtain ⟨j, hj⟩ := List.mem_iff_getElem?.mp hg
  have hij : i ≠ j := by
    rintro rfl
    rw [hf] at hj
    exact hne (Option.some.inj hj).symm
  exact List.mem_iff_getElem?.mpr ⟨j, by rw [List.getElem?_set_ne hij, hj]⟩

theorem resume_inv (hx : x.Inv py codec) (i : Nat) (a : Answer)
    (hsupposed : x.Supposed py codec (.resume i a)) (haligned : x.Aligned codec (.resume i a)) :
    (x.step py codec (.resume i a)).Inv py codec := by
  cases hf : x.flushes[i]? with
  | none =>
    simp only [step, hf]
    exact hx
  | some f =>
    obtain ⟨⟨haccounted, hcommits⟩, hintact, hhonest⟩ := hx
    have hmem : f ∈ x.flushes := List.mem_of_getElem? hf
    simp only [Supposed, Aligned, hf] at hsupposed haligned
    rw [step_resume hf]
    have hmove := resume_move py codec x.coordinator f a
    generalize x.coordinator.resume py codec f a = after at hmove
    obtain ⟨c', f', effect⟩ := after
    have hkeeps : Keeps py codec x.coordinator f x.trace c' f' effect :=
      move_keeps hmove hintact (hhonest f hmem) hsupposed haligned
    have hsub : x.trace ⊆ effect.toList ++ x.trace := List.subset_append_right _ _
    refine ⟨⟨fun r hr => ?_, fun lines answer older hsuffix r hr => ?_⟩, hkeeps.intact, fun g hg => ?_⟩
    · rcases haccounted r hr with hin | ⟨g, hg, hin⟩ | hin | hin
      · exact Or.inl (hkeeps.pending ▸ hin)
      · by_cases hsame : g = f
        · subst hsame
          have hset : f' ∈ x.flushes.set i f' := List.mem_set (List.getElem?_eq_some_iff.mp hf).1 f'
          rcases hkeeps.inHand r hin with hin | hin | hin
          · exact Or.inr (Or.inl ⟨f', hset, hin⟩)
          · exact Or.inr (Or.inr (Or.inl hin))
          · exact Or.inr (Or.inr (Or.inr (hin.mono hsub)))
        · exact Or.inr (Or.inl ⟨g, mem_set_of_ne hf hg hsame, hin⟩)
      · exact Or.inr (Or.inr ((hkeeps.buffered r hin).imp_right (·.mono hsub)))
      · exact Or.inr (Or.inr (Or.inr (hin.mono hsub)))
    · cases effect with
      | none => exact hcommits lines answer older hsuffix r hr
      | some effect =>
        rcases List.suffix_cons_iff.mp hsuffix with heq | hsuffix
        · cases heq
          exact hkeeps.commits lines answer rfl r hr
        · exact hcommits lines answer older hsuffix r hr
    · rcases List.mem_or_eq_of_mem_set hg with hg | rfl
      · exact honest_mono hkeeps.buffered hsub (hhonest g hg)
      · exact hkeeps.honest

theorem run_captured (x : World Line) (events : List Event) :
    (events.foldl (step py codec) x).captured = x.captured ++ events.flatMap Event.rows := by
  induction events generalizing x with
  | nil => simp
  | cons e events ih =>
    have hstep : (x.step py codec e).captured = x.captured ++ e.rows := by
      cases e with
      | capture rows => rfl
      | timer => exact (List.append_nil _).symm
      | resume i a => cases hf : x.flushes[i]? <;> simp [step, hf, Event.rows]
    rw [List.foldl_cons, ih, hstep, List.flatMap_cons, List.append_assoc]

theorem step_inv (hx : x.Inv py codec) (e : Event) (hsupposed : x.Supposed py codec e)
    (haligned : x.Aligned codec e) : (x.step py codec e).Inv py codec := by
  cases e with
  | capture rows => exact capture_inv hx rows
  | timer => exact timer_inv hx
  | resume i a => exact resume_inv hx i a hsupposed haligned

theorem run_safe {c : Coordinator Line} {buffered : List Captured} {events : List Event}
    (hintact : Intact codec c.buffer.lines)
    (hbuffered : ∀ r ∈ buffered, Buffered codec c.buffer.lines r)
    (h : Trace.Along (step py codec) (fun x e => x.Supposed py codec e ∧ x.Aligned codec e)
      (start c buffered) events) :
    (events.foldl (step py codec) (start c buffered)).Safe py codec := by
  have hinv := h.invariant (I := Inv py codec)
    (fun _ e hx he => step_inv hx e he.1 he.2) (start_inv hintact hbuffered)
  exact hinv.safe

end World

/-- Over every interleaving of flushes and captures in which each commit finds its own chunk at the
head of the file, no row is lost. -/
theorem aligned_safe (py : Python) (codec : Codec Line) (c : Coordinator Line)
    (buffered : List Captured) (events : List Event) (hintact : Intact codec c.buffer.lines)
    (hbuffered : ∀ r ∈ buffered, Buffered codec c.buffer.lines r)
    (h : Trace.Along (World.step py codec) (fun x e => x.Supposed py codec e ∧ x.Aligned codec e)
      (.start c buffered) events) :
    (events.foldl (World.step py codec) (.start c buffered)).Safe py codec :=
  World.run_safe hintact hbuffered h

/-- The row of the buffer alone. -/
def oneRow : Coordinator Json := { twoRows with pending := [] }

def busy : Answer := ⟨.response 503 .blank, 1783674000000000⟩

theorem aligned_safe_oneRow :
    ([.timer, .timer, .resume 0 accepts, .resume 0 accepts, .resume 0 accepts, .resume 1 accepts,
      .capture [reading (.int 51)], .timer, .resume 2 accepts, .resume 2 busy].foldl
        (World.step .july .plain) (.start oneRow [reading (.int 49)])).Safe .july .plain := by
  have hrecord : Codec.plain.item (Codec.plain.record (Python.july.iso 0) (reading (.int 49))) =
      .value (reading (.int 49)).item := Codec.item_record _ _
  have hhandled : accepts.exchange.Handled .july := Or.inr fun _ => ⟨_, rfl, 1, rfl⟩
  refine aligned_safe .july .plain oneRow [reading (.int 49)] _ (fun l hl => ?_) (fun r hr => ?_) ?_
  · cases List.mem_singleton.mp hl
    exact ⟨_, hrecord⟩
  · cases List.mem_singleton.mp hr
    exact ⟨_, List.mem_singleton_self _, hrecord⟩
  · refine ⟨⟨trivial, trivial⟩, ⟨trivial, trivial⟩, ⟨trivial, trivial⟩, ⟨hhandled, trivial⟩,
      ⟨trivial, fun l hl => ?_⟩, ⟨trivial, trivial⟩, ⟨trivial, trivial⟩, ⟨trivial, trivial⟩,
      ⟨trivial, trivial⟩, ⟨trivial, trivial⟩, trivial⟩
    cases List.mem_singleton.mp hl
    exact ⟨_, List.mem_singleton_self _, hrecord⟩

def drizzle : Captured :=
  (.weather, .obj [("time", .str "2026-07-10T09:00:00.000Z"), ("prcp", .int 1)])

/-- Two drains have pushed the same chunk; a row is buffered between their commits. -/
def overlapping : List Event :=
  [.timer, .timer, .resume 0 accepts, .resume 1 accepts, .resume 0 accepts, .resume 1 accepts,
    .resume 0 accepts, .capture [drizzle], .timer, .resume 2 accepts, .resume 2 busy,
    .resume 2 accepts, .resume 1 accepts, .resume 2 accepts, .resume 2 accepts]

/-- An effect that settles no weather row. -/
def noWeather : Effect Json → Bool
  | .drained chunk _ => (rowsOf .weather chunk).isEmpty
  | .sent _ (.response status _) => status == 503
  | .sent _ _ => false
  | _ => true

theorem not_settled_of_noWeather {trace : List (Effect Json)} (h : trace.all noWeather = true) :
    ¬ Settled .july trace drizzle := by
  have hall : ∀ e ∈ trace, noWeather e = true := List.all_eq_true.mp h
  rintro (⟨chunk, answer, hmem, hrow, -⟩ | ⟨batch, answer, hmem, -, hsettles⟩)
  · have hempty : rowsOf .weather chunk = [] := by simpa [noWeather] using hall _ hmem
    have hrow : drizzle.2 ∈ rowsOf .weather chunk := hrow
    rw [hempty] at hrow
    cases hrow
  · have hstatus := hall _ hmem
    cases answer with
    | response status body =>
      have hstatus : status = 503 := by simpa [noWeather] using hstatus
      subst hstatus
      rcases hsettles with ⟨-, hfails⟩ | hrefuses
      · exact hfails (by simp [Exchange.fails])
      · cases body <;> simp [Exchange.refuses] at hrefuses
    | clientError | timeoutError => cases hstatus

theorem not_safe_of_drizzle {x : World Json} (hcaptured : drizzle ∈ x.captured)
    (hpending : x.coordinator.pending.isEmpty = true)
    (hflushes : (x.flushes.all fun f => f.inHand.isEmpty) = true)
    (hlines : x.coordinator.buffer.lines.isEmpty = true) (htrace : x.trace.all noWeather = true) :
    ¬ x.Safe .july .plain := by
  intro hsafe
  rcases hsafe.1 drizzle hcaptured with hin | ⟨f, hf, hin⟩ | ⟨l, hl, -⟩ | hsettled
  · rw [List.isEmpty_iff.mp hpending] at hin
    cases hin
  · rw [List.isEmpty_iff.mp (List.all_eq_true.mp hflushes f hf)] at hin
    cases hin
  · rw [List.isEmpty_iff.mp hlines] at hl
    cases hl
  · exact not_settled_of_noWeather htrace hsettled

theorem overlap_loses_row :
    ¬ ∀ (py : Python) (codec : Codec Json) (c : Coordinator Json) (buffered : List Captured)
      (events : List Event), Intact codec c.buffer.lines →
      (∀ r ∈ buffered, Buffered codec c.buffer.lines r) →
      Trace.Along (World.step py codec) (World.Supposed py codec) (.start c buffered) events →
        (events.foldl (World.step py codec) (.start c buffered)).Safe py codec := by
  intro h
  have hrecord : Codec.plain.item (Codec.plain.record (Python.july.iso 0) (reading (.int 49))) =
      .value (reading (.int 49)).item := Codec.item_record _ _
  have hhandled : accepts.exchange.Handled .july := Or.inr fun _ => ⟨_, rfl, 1, rfl⟩
  have hsafe := h .july .plain oneRow [reading (.int 49)] overlapping (fun l hl => by
    cases List.mem_singleton.mp hl
    exact ⟨_, hrecord⟩) (fun r hr => by
    cases List.mem_singleton.mp hr
    exact ⟨_, List.mem_singleton_self _, hrecord⟩)
    ⟨trivial, trivial, trivial, trivial, hhandled, hhandled, trivial, trivial, trivial, trivial,
      trivial, trivial, trivial, ⟨_, rfl⟩, trivial, trivial⟩
  refine not_safe_of_drizzle ?_ (by decide +kernel) (by decide +kernel) (by decide +kernel)
    (by decide +kernel) hsafe
  rw [World.run_captured]
  exact List.mem_append_right _ (List.mem_flatMap.mpr
    ⟨.capture [drizzle], by simp [overlapping], List.mem_singleton_self _⟩)

end GridWitness.Client
