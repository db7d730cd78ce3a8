import GridWitness.Delivery.StretchLaws

namespace GridWitness.Delivery

open Client Server Library

universe u

variable {Line : Type u}

section Assumptions

variable (k : Link Line) (node : Node) (x : Session Line)

/-- The dedupe window has room for the new keys of a request. -/
def Roomy (items : List Item) (fate : Fate) : Prop :=
  x.app.dedupe.seen.length +
    (x.app.dedupe.unseen ((k.post x.app items fate).2.1.map rowKey)).length ≤
      x.app.dedupe.maxsize

instance (items : List Item) (fate : Fate) : Decidable (Roomy k x items fate) :=
  inferInstanceAs (Decidable (_ ≤ _))

variable {k x} in
theorem Roomy.filter {items : List Item} {fate : Fate} (h : Roomy k x items fate) :
    x.app.dedupe.seen.length +
      ((k.post x.app items fate).2.1.filter (rowKey · ∉ x.app.dedupe.seen)).length ≤
        x.app.dedupe.maxsize := by
  rw [Roomy, Deduper.unseen, List.filter_map, List.length_map] at h
  exact h

/-- What the client and the server are promised: deliverable rows with distinct keys, flushes that
do not overlap, stops between them, prunes that drop nothing, and a window with room. -/
def Supposed : Event → Prop
  | .capture rows =>
    (∀ r ∈ rows, Deliverable k node r) ∧ Distinct k node (x.world.captured ++ rows)
  | .timer => ∀ f ∈ x.world.flushes, f.Over
  | .stop now later =>
    (∀ f ∈ x.world.flushes, f.Over) ∧ (x.world.coordinator.pending = [] ∨
      ∃ buffer, (x.world.coordinator.buffer.append k.codec x.world.coordinator.pending
        (k.py.iso now)).prune k.codec k.py later = .ok (buffer, 0))
  | .resume i fate now =>
    (∀ f items, x.world.flushes[i]? = some f → posted f = some items →
      fate.Possible ∧ Roomy k x items fate) ∧
    ∀ f drained, x.world.flushes[i]? = some f → f.phase = .prune drained →
      ∃ buffer, x.world.coordinator.buffer.prune k.codec k.py now = .ok (buffer, 0)

/-- A flush with a batch in hand meets no exchange its client does not handle. -/
def Handles : Event → Prop
  | .resume i fate _ =>
    ∀ f items, x.world.flushes[i]? = some f → posted f = some items →
      f.batch = [] ∨ fate.Handled k.py
  | _ => True

/-- Each row is staged at most once and in the order of its kind, and none is lost. -/
structure OnceOnly : Prop where
  staged : x.app.tree.Files k.rt x.arrived.eraseDups
  once : (x.arrived.eraseDups.map rowKey).Nodup
  kept : (∀ f ∈ x.world.flushes, f.Over) → ∀ r ∈ x.world.captured,
    (∃ y ∈ x.arrived, filed k.pydantic node r = some y) ∨ r ∈ x.world.coordinator.pending ∨
      Buffered k.codec x.world.coordinator.buffer.lines r
  ordered : ∀ kind, x.arrived.eraseDups.filter (·.1 = kind) <+:
    (filedRows k node x.world.captured).filter (·.1 = kind)

end Assumptions

/-- What holds of a session between two steps. `f` is the flush in progress, or one that is over;
`removed` rows have left the client for good and `received` have reached the server. -/
structure Session.Inv (k : Link Line) (node : Node) (x : Session Line) (f : Flush)
    (removed received : Nat) (queued : List Captured) : Prop where
  has : Has k node x.world.captured x.app x.arrived received
  stretch : Stretch k x.world.captured x.world.coordinator f removed received queued
  single : x.world.Single
  mine : f.Over ∨ f ∈ x.world.flushes
  others : ∀ g ∈ x.world.flushes, g = f ∨ g.Over
  deliverable : ∀ r ∈ x.world.captured, Deliverable k node r
  distinct : Distinct k node x.world.captured

section Step

variable {k : Link Line} {node : Node} {x : Session Line} {f : Flush} {removed received : Nat}
  {queued : List Captured}

/-- The rows of a request are the oldest the client has not removed. -/
theorem Stretch.posted {captured : List Captured} {c : Coordinator Line}
    (h : Stretch k captured c f removed received queued) {items : List Item}
    (hposted : posted f = some items) :
    ∃ rs : List Captured, items = rs.map Captured.item ∧
      rs = (captured.drop removed).take rs.length := by
  obtain ⟨batch, phase⟩ := f
  cases phase with
  | push chunk =>
    obtain rfl : chunk = items := Option.some.inj hposted
    obtain ⟨hitems, hlength⟩ := h.held rfl
    refine ⟨queued.take chunk.length, hitems, ?_⟩
    rw [List.length_take, min_eq_left hlength, h.order, List.append_assoc,
      List.take_append_of_le_length hlength]
  | send =>
    obtain rfl : batch.map Captured.item = items := Option.some.inj hposted
    refine ⟨batch, rfl, ?_⟩
    have hqueued : queued = [] := h.cleared
    rw [h.order, hqueued]
    exact List.take_left.symm
  | _ => cases hposted

theorem capture_inv (h : x.Inv k node f removed received queued) {rows : List Captured}
    (hsupposed : Supposed k node x (.capture rows)) :
    (x.step k (.capture rows)).Inv k node f removed received queued := by
  obtain ⟨hdeliverable, hdistinct⟩ := hsupposed
  have hbound := h.has.bound
  refine ⟨⟨h.has.known, ?_, h.has.exact, h.has.room, fun kind => ?_⟩, ?_, h.single, h.mine, h.others,
    fun r hr => ?_, hdistinct⟩
  · exact hbound.trans (List.length_append ▸ Nat.le_add_right _ _)
  · rw [show (x.step k (.capture rows)).world.captured = x.world.captured ++ rows from rfl,
      List.take_append_of_le_length hbound]
    exact h.has.first kind
  · have hle := h.stretch.le.trans hbound
    refine { h.stretch with order := ?_ }
    rw [show (x.step k (.capture rows)).world.captured = x.world.captured ++ rows from rfl,
      List.drop_append_of_le_length hle, h.stretch.order, List.append_assoc]
    rfl
  · rcases List.mem_append.mp hr with hr | hr
    · exact h.deliverable r hr
    · exact hdeliverable r hr

/-- Between flushes the client holds what is in the file, and what is pending. -/
theorem Stretch.between {captured : List Captured} {c : Coordinator Line}
    (h : Stretch k captured c f removed received queued) (hover : f.Over) :
    captured.drop removed = queued ++ c.pending := by
  rw [h.order, carried_of_over hover, List.append_nil]

theorem Session.Inv.over (h : x.Inv k node f removed received queued)
    (hover : ∀ g ∈ x.world.flushes, g.Over) : f.Over :=
  h.mine.elim id (hover f)

theorem timer_inv (h : x.Inv k node f removed received queued)
    (hover : ∀ g ∈ x.world.flushes, g.Over) :
    (x.step k .timer).Inv k node ⟨x.world.coordinator.pending, .peek⟩ removed received queued := by
  refine ⟨h.has, ?_, @World.step_single Line k.py k.codec _ h.single .timer hover, Or.inr ?_, fun g hg => ?_,
    h.deliverable, h.distinct⟩
  · refine ⟨h.stretch.le, h.stretch.lines, ?_, Flush.ahead_of_held rfl, trivial⟩
    have horder := h.stretch.between (h.over hover)
    exact horder.trans (List.append_nil _).symm
  · exact List.mem_append_right _ (List.mem_singleton_self _)
  · rcases List.mem_append.mp hg with hg | hg
    · exact Or.inr (hover g hg)
    · exact Or.inl (List.mem_singleton.mp hg)

/-- A stop puts what is pending behind what is in the file. -/
theorem reload_stretch {captured : List Captured} {c : Coordinator Line} {now later : Time}
    (h : Stretch k captured c f removed received queued) (hover : f.Over)
    (hprune : c.pending = [] ∨ ∃ buffer, (c.buffer.append k.codec c.pending (k.py.iso now)).prune
      k.codec k.py later = .ok (buffer, 0)) :
    Stretch k captured (reload k c now later) f removed received (queued ++ c.pending) := by
  have hheld := Flush.held_of_over hover
  obtain ⟨raised, hphase⟩ := id hover
  have hlines : (reload k c now later).buffer.lines.map k.codec.item =
      (queued ++ c.pending).map fun r => .value r.item := by
    by_cases hempty : c.pending = []
    · simp only [reload, hempty, List.isEmpty_nil, if_true, List.append_nil]
      exact h.lines
    · obtain ⟨buffer, hpruned⟩ := hprune.resolve_left hempty
      have hsame := DiskBuffer.prune_zero hpruned
      simp only [reload, List.isEmpty_iff, if_neg hempty, hpruned]
      rw [hsame, DiskBuffer.lines_append, List.map_append, List.map_append, h.lines, List.map_map]
      exact congrArg _ (List.map_congr_left fun r _ => Codec.item_record _ r)
  have hpending : (reload k c now later).pending = [] := by
    rw [reload]
    split
    · rfl
    · dsimp only
      split <;> rfl
  refine ⟨h.le, hlines, ?_, Flush.ahead_of_held hheld, ?_⟩
  · rw [h.between hover, hpending, carried_of_over hover, List.append_nil, List.append_nil]
  · rw [hphase]
    trivial

theorem stop_inv (h : x.Inv k node f removed received queued) {now later : Time}
    (hsupposed : Supposed k node x (.stop now later)) :
    (x.step k (.stop now later)).Inv k node f removed received
      (queued ++ x.world.coordinator.pending) :=
  ⟨h.has, reload_stretch h.stretch (h.over hsupposed.1) hsupposed.2, h.single, h.mine, h.others,
    h.deliverable, h.distinct⟩

/-- A step of the flush in progress, with what it did on the server. -/
theorem resume_inv (h : x.Inv k node f removed received queued) {i : Nat}
    (hf : x.world.flushes[i]? = some f) (hover : ¬ f.Over) {a : Answer} {app : App}
    {brought : List (Kind × Row)} {received' : Nat} (hreceived : received ≤ received')
    (hhas : Has k node x.world.captured app (x.arrived ++ brought) received')
    (hsettles : ∀ items, posted f = some items → a.exchange.Settles k.py →
      removed + items.length ≤ received')
    (hhandled : ∀ items, posted f = some items → f.batch = [] ∨ a.exchange.Handled k.py)
    (hprune : ∀ drained, f.phase = .prune drained →
      ∃ buffer, x.world.coordinator.buffer.prune k.codec k.py a.now = .ok (buffer, 0)) :
    ∃ f' removed' queued', Session.Inv k node
      { world := x.world.step k.py k.codec (.resume i a), app, arrived := x.arrived ++ brought }
      f' removed' received' queued' := by
  have hsingle := @World.step_single Line k.py k.codec _ h.single (.resume i a) trivial
  rw [World.step_resume hf] at hsingle ⊢
  have hmove := resume_move k.py k.codec x.world.coordinator f a
  generalize x.world.coordinator.resume k.py k.codec f a = after at hmove hsingle ⊢
  obtain ⟨c', f', effect⟩ := after
  obtain ⟨removed', queued', hstretch⟩ :=
    move_stretch hmove h.stretch hreceived hsettles hhandled hprune
  refine ⟨f', removed', queued', hhas, hstretch, hsingle, Or.inr ?_, fun g hg => ?_, h.deliverable,
    h.distinct⟩
  · exact List.mem_set (List.getElem?_eq_some_iff.mp hf).1 f'
  · obtain ⟨j, hj⟩ := List.mem_iff_getElem?.mp hg
    by_cases hji : j = i
    · subst hji
      rw [List.getElem?_set_self (List.getElem?_eq_some_iff.mp hf).1] at hj
      exact Or.inl (Option.some.inj hj).symm
    · rw [List.getElem?_set_ne (Ne.symm hji)] at hj
      exact Or.inr ((h.single i j f g hf hj hji).resolve_left hover)

theorem step_inv (h : x.Inv k node f removed received queued) (e : Event)
    (hsupposed : Supposed k node x e) (hhandles : Handles k x e) :
    ∃ f' removed' received' queued', (x.step k e).Inv k node f' removed' received' queued' := by
  cases e with
  | capture rows => exact ⟨_, _, _, _, capture_inv h hsupposed⟩
  | timer => exact ⟨_, _, _, _, timer_inv h hsupposed⟩
  | stop now later => exact ⟨_, _, _, _, stop_inv h hsupposed⟩
  | resume i fate now =>
    cases hf : x.world.flushes[i]? with
    | none =>
      refine ⟨f, removed, received, queued, ?_⟩
      simp only [Session.step, hf, Option.bind_none, World.step]
      exact h
    | some g =>
      by_cases hover : g.Over
      · -- a flush that is over stays as it is
        obtain ⟨raised, hphase⟩ := hover
        refine ⟨f, removed, received, queued, ?_⟩
        have hposted : posted g = none := by rw [posted, hphase]
        have hset : x.world.flushes.set i g = x.world.flushes := by
          obtain ⟨hi, rfl⟩ := List.getElem?_eq_some_iff.mp hf
          exact List.set_getElem_self hi
        simp only [Session.step, hf, Option.bind_some, hposted, World.step, Coordinator.resume, hphase,
          hset]
        exact h
      · obtain rfl := (h.others g (List.mem_of_getElem? hf)).resolve_right hover
        obtain ⟨hpost, hprune⟩ := hsupposed
        cases hposted : posted g with
        | none =>
          have hnone : ∀ items, posted g ≠ some items := fun items heq =>
            Option.some_ne_none items (heq.symm.trans hposted)
          have hhas : Has k node x.world.captured x.app (x.arrived ++ []) received :=
            (List.append_nil x.arrived).symm ▸ h.has
          obtain ⟨f', removed', queued', hstep⟩ := resume_inv (a := ⟨.clientError "", now⟩) h hf hover
            le_rfl hhas (fun items heq => absurd heq (hnone items))
            (fun items heq => absurd heq (hnone items)) (fun drained => hprune g drained hf)
          rw [List.append_nil] at hstep
          refine ⟨f', removed', received, queued', ?_⟩
          simp only [Session.step, hf, Option.bind_some, hposted]
          exact hstep
        | some items =>
          obtain ⟨rs, rfl, hrs⟩ := h.stretch.posted hposted
          obtain ⟨hpossible, hroomy⟩ := hpost g _ hf hposted
          obtain ⟨received', hreceived, hhas, hsettles, hanswered⟩ :=
            h.has.post h.stretch.le h.deliverable h.distinct hrs hpossible hroomy.filter
          have hdone : ∀ items', posted g = some items' →
              (k.post x.app (rs.map Captured.item) fate).2.2.Settles k.py →
                removed + items'.length ≤ received' := by
            intro items' heq hsettled
            obtain rfl := Option.some.inj (hposted.symm.trans heq)
            rw [List.length_map]
            exact hsettles hsettled
          obtain ⟨f', removed', queued', hstep⟩ := resume_inv
            (a := ⟨(k.post x.app (rs.map Captured.item) fate).2.2, now⟩) h hf hover hreceived hhas
            hdone (fun items' heq => (hhandles g _ hf heq).imp_right hanswered)
            (fun drained => hprune g drained hf)
          refine ⟨f', removed', received', queued', ?_⟩
          simp only [Session.step, hf, Option.bind_some, hposted]
          exact hstep

end Step

def Event.rows : Event → List Captured
  | .capture rows => rows
  | _ => []

section Run

variable {k : Link Line} {node : Node}

theorem step_captured (k : Link Line) (x : Session Line) (e : Event) :
    (x.step k e).world.captured = x.world.captured ++ e.rows := by
  cases e with
  | capture rows => rfl
  | timer => exact (List.append_nil _).symm
  | stop now later => exact (List.append_nil _).symm
  | resume i fate now =>
    have hworld : ∀ a, (x.world.step k.py k.codec (.resume i a)).captured = x.world.captured := by
      intro a
      cases hf : x.world.flushes[i]? <;> simp [World.step, hf]
    rw [Session.step]
    split <;> exact (hworld _).trans (List.append_nil _).symm

theorem run_captured (k : Link Line) (x : Session Line) (events : List Event) :
    (events.foldl (Session.step k) x).world.captured =
      x.world.captured ++ events.flatMap Event.rows := by
  induction events generalizing x with
  | nil => simp
  | cons e events ih => rw [List.foldl_cons, ih, step_captured, List.flatMap_cons, List.append_assoc]

theorem start_inv {c : Coordinator Line} {buffered : List Captured} {s : App}
    (hlines : c.buffer.lines.map k.codec.item = buffered.map fun r => .value r.item)
    (hdeliverable : ∀ r ∈ buffered, Deliverable k node r) (hdistinct : Distinct k node buffered)
    (hknown : Known k node s) (htree : s.tree = ∅) (hdedupe : s.dedupe = StagingWriter.freshDeduper) :
    (Session.start c buffered s).Inv k node ⟨[], .ended none⟩ 0 0 buffered := by
  have hexact : Exact k.rt s.writer [] := by
    rw [App.writer, htree, hdedupe]
    exact fresh_exact k.rt
  have hsingle : (Session.start c buffered s).world.Single := fun i j f g hf => by
    rw [show (Session.start c buffered s).world.flushes = [] from rfl, List.getElem?_nil] at hf
    cases hf
  exact ⟨⟨hknown, Nat.zero_le _, hexact, Nat.zero_le _, fun kind => rfl⟩,
    ⟨le_rfl, hlines, (List.append_nil _).symm.trans (List.append_nil _).symm,
      Flush.ahead_of_held rfl, trivial⟩,
    hsingle, Or.inl ⟨none, rfl⟩, fun g hg => absurd hg List.not_mem_nil, hdeliverable, hdistinct⟩

theorem once_of_inv {x : Session Line} {f : Flush} {removed received : Nat} {queued : List Captured}
    (h : x.Inv k node f removed received queued) : OnceOnly k node x where
  staged := h.has.exact.files
  once := by
    refine (Resend.nodup_eraseDups x.arrived).map_on fun y hy z hz hkey => ?_
    have hfiled : ∀ y ∈ x.arrived.eraseDups, y ∈ filedRows k node x.world.captured := fun y hy =>
      (filedRows_sublist (List.take_sublist _ _)).subset
        (h.has.mem_arrived.mp (List.mem_eraseDups.mp hy))
    exact List.inj_on_of_nodup_map h.distinct (hfiled y hy) (hfiled z hz) hkey
  kept := by
    intro hover r hr
    rw [← List.take_append_drop removed x.world.captured,
      h.stretch.between (h.over hover)] at hr
    rcases List.mem_append.mp hr with hremoved | hrest
    · -- what the client has removed has arrived before
      obtain ⟨y, hy, -⟩ := h.deliverable r (List.mem_of_mem_take hremoved)
      have hreceived := (List.take_sublist_take_left h.stretch.le).subset hremoved
      exact Or.inl ⟨y, h.has.mem_arrived.mpr (List.mem_filterMap.mpr ⟨r, hreceived, hy⟩), hy⟩
    · rcases List.mem_append.mp hrest with hqueued | hpending
      · have hline : Reading.value r.item ∈ x.world.coordinator.buffer.lines.map k.codec.item := by
          rw [h.stretch.lines]
          exact List.mem_map_of_mem hqueued
        obtain ⟨l, hl, hitem⟩ := List.mem_map.mp hline
        exact Or.inr (Or.inr ⟨l, hl, hitem⟩)
      · exact Or.inr (Or.inl hpending)
  ordered := by
    intro kind
    rw [h.has.first kind]
    refine List.IsPrefix.filter _ ?_
    rw [filedRows, filedRows]
    exact (List.take_prefix _ _).filterMap _

/-- In every run whose posts end in a way the client handles, each row is staged at most once and in
order, and none is lost. -/
theorem delivered_once (k : Link Line) (node : Node) (c : Coordinator Line) (buffered : List Captured)
    (s : App) (hlines : c.buffer.lines.map k.codec.item = buffered.map fun r => .value r.item)
    (hdeliverable : ∀ r ∈ buffered, Deliverable k node r) (hdistinct : Distinct k node buffered)
    (hknown : Known k node s) (htree : s.tree = ∅) (hdedupe : s.dedupe = StagingWriter.freshDeduper)
    (events : List Event)
    (h : Trace.Along (Session.step k) (fun x e => Supposed k node x e ∧ Handles k x e)
      (.start c buffered s) events) :
    let x := events.foldl (Session.step k) (.start c buffered s)
    x.world.captured = buffered ++ events.flatMap Event.rows ∧ OnceOnly k node x := by
  intro x
  refine ⟨run_captured k _ events, ?_⟩
  have hstart : ∃ f removed received queued,
      (Session.start c buffered s).Inv k node f removed received queued :=
    ⟨_, _, _, _, start_inv hlines hdeliverable hdistinct hknown htree hdedupe⟩
  obtain ⟨f, removed, received, queued, hx⟩ := h.invariant (I := fun x : Session Line =>
    ∃ f removed received queued, x.Inv k node f removed received queued)
    (fun x e ⟨f, removed, received, queued, hx⟩ he => step_inv hx e he.1 he.2) hstart
  exact once_of_inv hx

end Run

/-- The link of one node, for concrete runs. -/
def mainsLink : Link Json where
  py := .july
  codec := .plain
  pydantic := .plain
  rt := .ascii
  token := "secret"
  nodeId := "n1"

def mainsApp : App :=
  (App.start none 6000).after .ascii
    [.request (.register {} none none ⟨"n1", "secret", "2026-07-10T08:00:00Z"⟩)]

def mainsNode : Node where
  nodeId := "n1"
  createdUtc := "2026-07-10T08:00:00Z"
  deviceType := "unknown"
  firmware := none
  cadenceMs := none
  locTier := .anon
  locRef := none
  cellId := none
  channels := [.frequencyHz]
  producer := none
  deletedUtc := none

theorem mains_known : Known mainsLink mainsNode mainsApp := by
  have hnode : mainsApp.db.nodes.lookup mainsLink.nodeId = some mainsNode.toNodeRow := by
    decide +kernel
  have htoken : mainsApp.db.getTokenHash mainsLink.nodeId =
      some "2bb80d537b1da3e38bd30361aa855686bde0eacd7162fef6a25fe97bf527a25b" := by decide +kernel
  refine ⟨_, rfl, ?_⟩
  rw [authenticateNode, Database.getNode, hnode, htoken]
  rfl

def mainsReading : Captured :=
  (.electrical, .obj [("ts_utc", .str "2026-07-10T09:00:00Z"), ("frequency_hz", .int 50)])

/-- A coordinator with nothing in memory and no buffer file. -/
def idle : Coordinator Json := ⟨[], ⟨none, 250000, 72⟩, true, 0⟩

/-- One reading is flushed, and its post meets a fate. -/
def flushed (fate : Fate) : List Event :=
  [.capture [mainsReading], .timer, .resume 0 fate 0, .resume 0 fate 0]

theorem flushed_supposed {fate : Fate} (hpossible : fate.Possible)
    (hroomy : Roomy mainsLink (.start idle [] mainsApp) [mainsReading.item] fate) :
    Trace.Along (Session.step mainsLink) (Supposed mainsLink mainsNode) (.start idle [] mainsApp)
      (flushed fate) := by
  have hdeliverable : Deliverable mainsLink mainsNode mainsReading := by decide +kernel
  have hdistinct : Distinct mainsLink mainsNode [mainsReading] := by decide +kernel
  refine ⟨⟨fun r hr => ?_, hdistinct⟩, nofun, ⟨?_, ?_⟩, ⟨?_, ?_⟩, trivial⟩
  · rw [List.mem_singleton.mp hr]
    exact hdeliverable
  · rintro f items ⟨⟩ ⟨⟩
  · rintro f drained ⟨⟩ ⟨⟩
  · rintro f items ⟨⟩ ⟨⟩
    exact ⟨hpossible, hroomy⟩
  · rintro f drained ⟨⟩ ⟨⟩

theorem flushed_handled {fate : Fate} (hhandled : fate.Handled mainsLink.py) :
    Trace.Along (Session.step mainsLink) (Handles mainsLink) (.start idle [] mainsApp)
      (flushed fate) := by
  refine ⟨trivial, trivial, ?_, fun f items _ _ => Or.inr hhandled, trivial⟩
  rintro f items ⟨⟩ ⟨⟩

theorem mainsApp_empty : mainsApp.tree = ∅ ∧ mainsApp.dedupe = StagingWriter.freshDeduper :=
  ⟨AList.ext (by decide +kernel), rfl⟩

/-- The server files the row, and its answer is lost. -/
theorem delivered_once_lostAnswer :
    OnceOnly mainsLink mainsNode ((flushed (.processed 0 (some (.clientError "")))).foldl
      (Session.step mainsLink) (.start idle [] mainsApp)) := by
  have hlost : ∀ ending ∈ some (Exchange.clientError ""), Lost ending ∧ ending.Handled .july := by
    rintro ending ⟨⟩
    exact ⟨trivial, trivial⟩
  have hsupposed := @flushed_supposed (.processed 0 (some (.clientError "")))
    (fun ending h => (hlost ending h).1) (by decide +kernel)
  have hhandled := @flushed_handled (.processed 0 (some (.clientError "")))
    (fun ending h => (hlost ending h).2)
  exact (delivered_once mainsLink mainsNode idle [] mainsApp rfl nofun List.nodup_nil mains_known
    mainsApp_empty.1 mainsApp_empty.2 _ (hsupposed.and hhandled)).2

/-- The bare timeout of a post takes the row with it. -/
theorem timeout_drops_row :
    ¬ ∀ (k : Link Json) (node : Node) (c : Coordinator Json) (s : App) (events : List Event),
      c.buffer.lines = [] → Known k node s → s.tree = ∅ → s.dedupe = StagingWriter.freshDeduper →
      Trace.Along (Session.step k) (Supposed k node) (.start c [] s) events →
        OnceOnly k node (events.foldl (Session.step k) (.start c [] s)) := by
  intro h
  have hsupposed := @flushed_supposed (.unprocessed .timeoutError) (Or.inl trivial)
    (by decide +kernel)
  have hkept := (h mainsLink mainsNode idle mainsApp _ rfl mains_known mainsApp_empty.1
    mainsApp_empty.2 hsupposed).kept
  have hover : ∀ f ∈ [(⟨[mainsReading], .ended (some .timeout)⟩ : Flush)], f.Over := by
    intro f hf
    rw [List.mem_singleton.mp hf]
    exact ⟨_, rfl⟩
  rcases hkept hover mainsReading (List.mem_singleton_self _) with ⟨y, hy, -⟩ | hpending | ⟨l, hl, -⟩
  · cases hy
  · cases hpending
  · cases hl

end GridWitness.Delivery
