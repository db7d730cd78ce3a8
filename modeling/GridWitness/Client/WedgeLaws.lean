import GridWitness.Client.OverlapLaws
import GridWitness.Client.QueueLaws

namespace GridWitness.Client

open Server Library

universe u

variable {Line : Type u} {py : Python} {codec : Codec Line} {ls : List Line}

/-- Decoding a line raises nothing but a `JSONDecodeError`, and what it decodes to, if to anything, is an
object whose `buffered_ts`, if it has one, is text. -/
structure Codec.Tame (codec : Codec Line) (l : Line) : Prop where
  raised : ∀ e, codec.loads l ≠ .raised e
  value : ∀ value, codec.loads l = .value value → ∃ fields, value = .obj fields ∧
    ∀ ts, fields.lookup "buffered_ts" = some ts → ∃ s, ts = .str s

namespace Codec

variable {l : Line}

theorem Tame.item_ne_raised (h : codec.Tame l) (e : PyError) : codec.item l ≠ .raised e := by
  cases hloads : codec.loads l with
  | undecodable => simp [item_torn hloads]
  | value value =>
    obtain ⟨fields, rfl, -⟩ := h.value value hloads
    simp only [item, hloads]
    split <;> simp
  | raised e => exact absurd hloads (h.raised e)

theorem Tame.bufferedTs_ne_raised (h : codec.Tame l) (py : Python) (e : PyError) :
    codec.bufferedTs py l ≠ .raised e := by
  cases hloads : codec.loads l with
  | undecodable => simp [bufferedTs, hloads]
  | raised e => exact absurd hloads (h.raised e)
  | value value =>
    obtain ⟨fields, rfl, hts⟩ := h.value value hloads
    cases hlookup : fields.lookup "buffered_ts" with
    | none => simp [bufferedTs, hloads, hlookup]
    | some ts =>
      obtain ⟨s, rfl⟩ := hts ts hlookup
      cases hparse : py.parseIso s <;> simp [bufferedTs, hloads, hlookup, hparse]

/-- A prune follows the fields of a line further than a peek does, and a peek catches less of what a
decoder raises. -/
theorem tame_of_readings (hitem : ∀ e, codec.item l ≠ .raised e)
    (hts : ∀ e, codec.bufferedTs py l ≠ .raised e) : codec.Tame l where
  raised e hloads := hitem e (by rw [item, hloads])
  value value hloads := by
    cases value with
    | obj fields =>
      refine ⟨fields, rfl, fun ts hlookup => ?_⟩
      cases ts with
      | str s => exact ⟨s, rfl⟩
      | _ =>
        refine absurd ?_ (hts .attribute)
        simp only [bufferedTs, hloads, hlookup]
    | _ =>
      refine absurd ?_ (hts .type)
      simp only [bufferedTs, hloads]

theorem record_tame (r : Captured) (nowIso : String) : codec.Tame (codec.record nowIso r) where
  raised e hloads := by
    rw [record, codec.lossless] at hloads
    cases hloads
  value value hloads := by
    rw [record, codec.lossless] at hloads
    cases hloads
    refine ⟨_, rfl, fun ts hlookup => ⟨nowIso, ?_⟩⟩
    simpa [List.lookup_cons] using hlookup.symm

/-- A peek that may fill its list with all lines there are looks at each of them. -/
theorem items_ok {n : Nat} (hn : ls.length ≤ n) {chunk : List Item} (h : codec.items n ls = .ok chunk) :
    ∀ l ∈ ls, ∀ e, codec.item l ≠ .raised e := by
  induction ls generalizing n chunk with
  | nil => exact nofun
  | cons l ls ih =>
    obtain ⟨m, rfl⟩ : ∃ m, n = m + 1 := ⟨n - 1, by rw [List.length_cons] at hn; omega⟩
    have hm : ls.length ≤ m := by simpa using hn
    cases hitem : codec.item l with
    | value item =>
      simp only [items, hitem] at h
      cases hrest : codec.items m ls with
      | error e =>
        rw [hrest] at h
        cases h
      | ok rest => exact List.forall_mem_cons.mpr ⟨fun e he => by simp [hitem] at he, ih hm hrest⟩
    | skipped =>
      simp only [items, hitem] at h
      exact List.forall_mem_cons.mpr ⟨fun e he => by simp [hitem] at he, ih (by omega) h⟩
    | raised e =>
      simp only [items, hitem] at h
      cases h

/-- The loop of a prune comes to its end exactly when it can date every line. -/
theorem fresh_ok_iff (py : Python) (cutoff : Time) :
    (∃ kept, codec.fresh py cutoff ls = .ok kept) ↔
      ∀ l ∈ ls, ∀ e, codec.bufferedTs py l ≠ .raised e := by
  induction ls with
  | nil => simp [fresh]
  | cons l ls ih =>
    rw [List.forall_mem_cons, ← ih]
    cases hts : codec.bufferedTs py l with
    | value ts =>
      cases hrest : codec.fresh py cutoff ls with
      | error e =>
        simp only [fresh, hts, hrest]
        split <;> simp
      | ok rest =>
        simp only [fresh, hts, hrest]
        split <;> simp
    | skipped => simp [fresh, hts]
    | raised e => simp [fresh, hts]

end Codec

namespace DiskBuffer

variable {b b' : DiskBuffer Line}

/-- A prune returns exactly when it can date every line of the file. -/
theorem prune_ok_iff {now : Time} :
    (∃ out, b.prune codec py now = .ok out) ↔
      ∀ l ∈ b.lines, ∀ e, codec.bufferedTs py l ≠ .raised e := by
  have hlines := prune_lines py codec b now
  rw [← Codec.fresh_ok_iff py (now - b.maxAgeH * hour)]
  constructor
  · rintro ⟨out, hout⟩
    rw [hout] at hlines
    cases hfresh : codec.fresh py (now - b.maxAgeH * hour) b.lines with
    | error e =>
      rw [hfresh] at hlines
      cases hlines
    | ok kept => exact ⟨kept, rfl⟩
  · rintro ⟨kept, hkept⟩
    rw [hkept] at hlines
    cases hout : b.prune codec py now with
    | error e =>
      rw [hout] at hlines
      cases hlines
    | ok out => exact ⟨out, rfl⟩

/-- A prune adds no line. -/
theorem prune_subset {now : Time} {dropped : Nat} (h : b.prune codec py now = .ok (b', dropped)) :
    b'.lines ⊆ b.lines := by
  have hlines := prune_lines py codec b now
  rw [h] at hlines
  cases hfresh : codec.fresh py (now - b.maxAgeH * hour) b.lines with
  | error e =>
    rw [hfresh] at hlines
    cases hlines
  | ok kept =>
    rw [hfresh] at hlines
    have hkept : b'.lines = capped b.maxRows kept := Except.ok.inj hlines
    exact hkept ▸ List.Subset.trans (capped_sublist _ _).subset (Codec.fresh_sublist hfresh).subset

end DiskBuffer

namespace Flush

/-- The flush waits for the answer to a push. -/
def Pushes (f : Flush) : Prop := (∃ chunk, f.phase = .push chunk) ∨ f.phase = .send

/-- The batch was pushed for good, or it is in the file. -/
def Delivered (py : Python) (f : Flush) (trace : List (Effect Line)) : Prop :=
  f.batch = [] ∨ .appended f.batch ∈ trace ∨ ∃ ex, .sent f.batch ex ∈ trace ∧ ex.Settles py

/-- Once a flush has only its end before it, its batch is delivered. -/
def Careful (py : Python) (f : Flush) (trace : List (Effect Line)) : Prop :=
  match f.phase with
  | .prune _ | .echo | .ended none => f.Delivered py trace
  | _ => True

end Flush

/-- Every line of the file is tame. -/
def Tidy (codec : Codec Line) (lines : List Line) : Prop := ∀ l ∈ lines, codec.Tame l

section Step

variable {c c' : Coordinator Line} {f f' : Flush} {a : Answer} {effect : Option (Effect Line)}
  {trace trace' : List (Effect Line)}

theorem Flush.Delivered.mono (h : f.Delivered py trace) (hsub : trace ⊆ trace') :
    f.Delivered py trace' :=
  h.imp_right (Or.imp (fun happended => hsub happended)
    fun ⟨ex, hsent, hsettles⟩ => ⟨ex, hsub hsent, hsettles⟩)

theorem Flush.Careful.mono (h : f.Careful py trace) (hsub : trace ⊆ trace') :
    f.Careful py trace' := by
  obtain ⟨batch, phase⟩ := f
  cases phase with
  | prune | echo => exact Flush.Delivered.mono h hsub
  | ended raised =>
    cases raised with
    | none => exact Flush.Delivered.mono h hsub
    | some e => trivial
  | _ => trivial

theorem move_tidy (hmove : Move py codec c f a c' f' effect) (htidy : Tidy codec c.buffer.lines) :
    Tidy codec c'.buffer.lines := by
  cases hmove with
  | commit chunk answer hphase =>
    intro l hl
    rw [DiskBuffer.lines_commit] at hl
    exact htidy l (List.mem_of_mem_drop hl)
  | append drained hphase =>
    intro l hl
    rw [DiskBuffer.lines_append] at hl
    rcases List.mem_append.mp hl with hl | hl
    · exact htidy l hl
    · obtain ⟨r, -, rfl⟩ := List.mem_map.mp hl
      exact Codec.record_tame r _
  | pruned drained buffer dropped phase hphase hprune hphase' =>
    exact fun l hl => htidy l (DiskBuffer.prune_subset hprune hl)
  | _ => exact htidy

theorem move_careful (hmove : Move py codec c f a c' f' effect) (hcareful : f.Careful py trace) :
    f'.Careful py (effect.toList ++ trace) := by
  cases hmove with
  | peekNothing hphase hpeek hbatch => exact Or.inl hbatch
  | pushOffline chunk hphase hhandled hfails hbatch => exact Or.inl hbatch
  | sendSettled total online hphase hsettles =>
    exact Or.inr (Or.inr ⟨a.exchange, List.mem_cons_self, hsettles⟩)
  | append drained hphase => exact Or.inr (Or.inl List.mem_cons_self)
  | pruned drained buffer dropped phase hphase hprune hphase' =>
    simp only [Flush.Careful, hphase] at hcareful
    cases drained <;> subst hphase' <;> exact hcareful.mono (List.subset_cons_self _ _)
  | echo hphase =>
    simp only [Flush.Careful, hphase] at hcareful
    exact hcareful
  | ended raised hphase => exact hcareful
  | _ => trivial

/-- Over a tidy file only an exchange makes a flush raise. -/
theorem move_raises (hmove : Move py codec c f a c' f' effect) (htidy : Tidy codec c.buffer.lines)
    {e : PyError} (hraised : f'.phase = .ended (some e)) :
    f.phase = .ended (some e) ∨ f.Pushes ∧ ¬ a.exchange.Handled py := by
  cases hmove with
  | peekRaised e hphase hpeek =>
    rw [DiskBuffer.peek, Codec.items_wellFormed fun l hl => (htidy l hl).item_ne_raised] at hpeek
    cases hpeek
  | pushRaised chunk e hphase hhandled => exact Or.inr ⟨Or.inl ⟨chunk, hphase⟩, hhandled⟩
  | sendRaised e hphase hhandled => exact Or.inr ⟨Or.inr hphase, hhandled⟩
  | pruneRaised drained e hphase hprune =>
    obtain ⟨out, hout⟩ := DiskBuffer.prune_ok_iff.mpr fun l hl =>
      (htidy l hl).bufferedTs_ne_raised py
    rw [hprune] at hout
    cases hout
  | pruned drained buffer dropped phase hphase hprune hphase' =>
    cases drained <;> subst hphase' <;> cases hraised
  | ended raised hphase => exact Or.inl hraised
  | _ => cases hraised

end Step

/-- No flush raises over what the file holds, and none that is over has lost its batch. -/
structure World.Unharmed (py : Python) (codec : Codec Line) (x : World Line) : Prop where
  raises : ∀ f ∈ x.flushes, ∀ a e,
    (x.coordinator.resume py codec f a).2.1.phase = .ended (some e) →
      f.phase = .ended (some e) ∨ f.Pushes ∧ ¬ a.exchange.Handled py
  batch : ∀ f ∈ x.flushes, f.phase = .ended none → f.Delivered py x.trace

/-- Nothing in the file stands in the way of what is done with it. -/
structure DiskBuffer.Harmless (py : Python) (codec : Codec Line) (b : DiskBuffer Line) : Prop where
  peek : ∀ n, b.peek codec n = .ok ((codec.wellFormed b.lines).take n)
  prune : ∀ now, ∃ out, b.prune codec py now = .ok out
  flush : ∀ (c : Coordinator Line) (buffered : List Captured) (events : List Event), c.buffer = b →
    (events.foldl (World.step py codec) (.start c buffered)).Unharmed py codec

namespace World

variable {x : World Line}

structure Calm (py : Python) (codec : Codec Line) (x : World Line) : Prop where
  tidy : Tidy codec x.coordinator.buffer.lines
  careful : ∀ f ∈ x.flushes, f.Careful py x.trace

theorem step_calm (hx : x.Calm py codec) (e : Event) : (x.step py codec e).Calm py codec := by
  cases e with
  | capture rows => exact ⟨hx.tidy, hx.careful⟩
  | timer =>
    refine ⟨hx.tidy, fun f hf => ?_⟩
    rcases List.mem_append.mp hf with hf | hf
    · exact hx.careful f hf
    · cases List.mem_singleton.mp hf
      trivial
  | resume i a =>
    cases hf : x.flushes[i]? with
    | none =>
      simp only [step, hf]
      exact hx
    | some f =>
      rw [step_resume hf]
      have hmove := resume_move py codec x.coordinator f a
      generalize x.coordinator.resume py codec f a = after at hmove
      obtain ⟨c', f', effect⟩ := after
      refine ⟨move_tidy hmove hx.tidy, fun g hg => ?_⟩
      rcases List.mem_or_eq_of_mem_set hg with hg | rfl
      · exact (hx.careful g hg).mono (List.subset_append_right _ _)
      · exact move_careful hmove (hx.careful f (List.mem_of_getElem? hf))

theorem run_calm (hx : x.Calm py codec) (events : List Event) :
    (events.foldl (step py codec) x).Calm py codec := by
  induction events generalizing x with
  | nil => exact hx
  | cons e events ih => exact ih (step_calm hx e)

theorem Calm.unharmed (hx : x.Calm py codec) : x.Unharmed py codec where
  raises f _ a _ hraised := move_raises (resume_move py codec x.coordinator f a) hx.tidy hraised
  batch f hf hphase := by
    have hcareful := hx.careful f hf
    simp only [Flush.Careful, hphase] at hcareful
    exact hcareful

end World

namespace DiskBuffer

/-- A file whose only line is a number. -/
def numberFile : DiskBuffer Json := ⟨some [.int 5], 250000, 72⟩

end DiskBuffer

end GridWitness.Client
