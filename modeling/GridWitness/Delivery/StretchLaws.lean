import GridWitness.Client.SerialLaws
import GridWitness.Delivery.WireLaws
import GridWitness.Library.Resend

namespace GridWitness.Delivery

open Client Server Library

universe u

variable {Line : Type u}

/-- The exchange ends without an answer. -/
def Lost : Exchange → Prop
  | .clientError _ => True
  | .timeoutError => True
  | .response _ _ => False

/-- The answer is to try again later. -/
def Later : Exchange → Prop
  | .response status _ => status = 429 ∨ 500 ≤ status
  | _ => False

/-- A request is lost or turned away for now, or it is processed and its answer may be lost. -/
def Fate.Possible : Fate → Prop
  | .unprocessed ending => Lost ending ∨ Later ending
  | .processed _ lost => ∀ ending ∈ lost, Lost ending

/-- The client knows what to make of the end of the exchange. -/
def Fate.Handled (py : Python) : Fate → Prop
  | .unprocessed ending => ending.Handled py
  | .processed _ lost => ∀ ending ∈ lost, ending.Handled py

theorem not_settles_of_lost {py : Python} {ex : Exchange} (h : Lost ex ∨ Later ex) :
    ¬ ex.Settles py := by
  cases ex with
  | clientError text => simp [Exchange.Settles, Exchange.fails, Exchange.refuses]
  | timeoutError => simp [Exchange.Settles, Exchange.fails, Exchange.refuses]
  | response status body =>
    have hlater : status = 429 ∨ 500 ≤ status := h.resolve_left id
    rintro (⟨-, hfails⟩ | hrefuses)
    · exact hfails (by simp only [Exchange.fails]; omega)
    · cases body <;> simp only [Exchange.refuses] at hrefuses <;> omega

theorem handled_ok (py : Python) (r : SamplesResponse) : (answer (.ok r)).Handled py :=
  Or.inr fun _ => ⟨_, rfl, r.accepted, rfl⟩

theorem handled_getD {py : Python} {lost : Option Exchange} {ending : Exchange}
    (hlost : ∀ ex ∈ lost, ex.Handled py) (hending : ending.Handled py) :
    (lost.getD ending).Handled py := by
  cases lost with
  | none => exact hending
  | some ex => exact hlost ex rfl

section Rows

variable (k : Link Line) (node : Node)

/-- A captured row is valid and consented, and its timestamp names a file. -/
def Deliverable (r : Captured) : Prop :=
  ∃ y, filed k.pydantic node r = some y ∧ (stagingPath k.rt y).isSome

instance (r : Captured) : Decidable (Deliverable k node r) :=
  decidable_of_iff ((filed k.pydantic node r).any fun y => (stagingPath k.rt y).isSome)
    (Option.any_eq_true _ _)

/-- The rows as the server files them. -/
def filedRows (rs : List Captured) : List (Kind × Row) := rs.filterMap (filed k.pydantic node)

/-- No two rows have the same dedupe key. -/
def Distinct (rs : List Captured) : Prop := ((filedRows k node rs).map rowKey).Nodup

instance (rs : List Captured) : Decidable (Distinct k node rs) :=
  inferInstanceAs (Decidable (List.Nodup _))

end Rows

section Post

variable {k : Link Line} {node : Node} {captured : List Captured} {s : App}
  {arrived : List (Kind × Row)} {removed received : Nat}

/-- What the server has: the first rows captured, as far as they have arrived. -/
structure Has (k : Link Line) (node : Node) (captured : List Captured) (s : App)
    (arrived : List (Kind × Row)) (received : Nat) : Prop where
  known : Known k node s
  bound : received ≤ captured.length
  exact : Exact k.rt s.writer arrived.eraseDups
  room : arrived.eraseDups.length ≤ dedupeSize
  first : ∀ kind, arrived.eraseDups.filter (·.1 = kind) =
    (filedRows k node (captured.take received)).filter (·.1 = kind)

theorem Has.mem_arrived (h : Has k node captured s arrived received) {y : Kind × Row} :
    y ∈ arrived ↔ y ∈ filedRows k node (captured.take received) := by
  have hkind : ∀ ys : List (Kind × Row), y ∈ ys ↔ y ∈ ys.filter (·.1 = y.1) := fun ys => by
    simp [List.mem_filter]
  rw [← List.mem_eraseDups, hkind, h.first, ← hkind]

theorem filedRows_sublist {rs rs' : List Captured} (h : rs.Sublist rs') :
    (filedRows k node rs).Sublist (filedRows k node rs') := h.filterMap _

theorem Has.new_iff (h : Has k node captured s arrived received)
    (hdistinct : Distinct k node captured) {y : Kind × Row} (hy : y ∈ filedRows k node captured) :
    rowKey y ∉ arrived.eraseDups.map rowKey ↔ y ∉ arrived := by
  refine not_congr ⟨fun hkey => ?_, fun hmem => List.mem_map_of_mem (List.mem_eraseDups.mpr hmem)⟩
  obtain ⟨z, hz, hkey⟩ := List.mem_map.mp hkey
  have hz := List.mem_eraseDups.mp hz
  have hzin : z ∈ filedRows k node captured :=
    (filedRows_sublist (List.take_sublist _ _)).subset (h.mem_arrived.mp hz)
  exact List.inj_on_of_nodup_map hdistinct hzin hy hkey ▸ hz

/-- A write of a stretch of the captured rows extends what has arrived. -/
theorem Has.extend (h : Has k node captured s arrived received) (hle : removed ≤ received)
    (hdistinct : Distinct k node captured) {rs : List Captured}
    (hrs : rs = (captured.drop removed).take rs.length) {s' : App} (hknown : Known k node s')
    (hroom : arrived.eraseDups.length + ((filedRows k node rs).filter
      (rowKey · ∉ arrived.eraseDups.map rowKey)).length ≤ dedupeSize)
    (hexact : Exact k.rt s'.writer (arrived.eraseDups ++ byKind ((filedRows k node rs).filter
      (rowKey · ∉ arrived.eraseDups.map rowKey)))) :
    Has k node captured s' (arrived ++ byKind (filedRows k node rs))
      (max received (removed + rs.length)) := by
  have hsub : (filedRows k node rs).Sublist (filedRows k node captured) := by
    refine filedRows_sublist ?_
    rw [hrs]
    exact (List.take_sublist _ _).trans (List.drop_sublist _ _)
  have hnodup : (filedRows k node captured).Nodup := hdistinct.of_map
  have hfirst : (arrived ++ byKind (filedRows k node rs)).eraseDups = arrived.eraseDups ++
      byKind ((filedRows k node rs).filter (rowKey · ∉ arrived.eraseDups.map rowKey)) := by
    rw [← filter_byKind]
    refine Resend.eraseDups_append_nodup (fun y hy => ?_)
      ((byKind_perm _).nodup_iff.mpr (hnodup.sublist hsub))
    rw [decide_eq_true_eq]
    exact h.new_iff hdistinct (hsub.subset ((byKind_perm _).mem_iff.mp hy))
  have hnew : (filedRows k node rs).filter (rowKey · ∉ arrived.eraseDups.map rowKey) =
      filedRows k node ((captured.drop received).take (removed + rs.length - received)) := by
    have hresend := @Resend.filter_resend _ _ captured (filed k.pydantic node) removed rs.length
      received (fun y => rowKey y ∉ arrived.eraseDups.map rowKey) (fun y hy => by
        rw [decide_eq_true_eq, h.new_iff hdistinct hy, h.mem_arrived]
        rfl) hnodup hle
    rw [← hrs] at hresend
    exact hresend
  refine ⟨hknown, ?_, hfirst ▸ hexact, ?_, fun kind => ?_⟩
  · have hlength := congrArg List.length hrs
    rw [List.length_take, List.length_drop] at hlength
    have hbound := h.bound
    omega
  · rw [hfirst, List.length_append, (byKind_perm _).length_eq]
    exact hroom
  · rw [hfirst, List.filter_append, byKind_filter, hnew, h.first, ← List.filter_append,
      filedRows, filedRows, ← List.filterMap_append, Resend.take_resend]
    rfl

/-- A stretch of the captured rows that starts no later than what has arrived extends it. -/
theorem Has.post (h : Has k node captured s arrived received) (hle : removed ≤ received)
    (hdeliverable : ∀ r ∈ captured, Deliverable k node r) (hdistinct : Distinct k node captured)
    {rs : List Captured} (hrs : rs = (captured.drop removed).take rs.length) {fate : Fate}
    (hfate : fate.Possible)
    (hroomy : s.dedupe.seen.length + ((k.post s (rs.map Captured.item) fate).2.1.filter
      (rowKey · ∉ s.dedupe.seen)).length ≤ s.dedupe.maxsize) :
    let out := k.post s (rs.map Captured.item) fate
    ∃ received', received ≤ received' ∧ Has k node captured out.1 (arrived ++ out.2.1) received' ∧
      (out.2.2.Settles k.py → removed + rs.length ≤ received') ∧
      (fate.Handled k.py → out.2.2.Handled k.py) := by
  intro out
  cases fate with
  | unprocessed ending =>
    refine ⟨received, le_rfl, ?_, fun hsettles => absurd hsettles (not_settles_of_lost hfate), id⟩
    rw [show out = (s, [], ending) from rfl, List.append_nil]
    exact h
  | processed monotonic lost =>
    have hmem : ∀ r ∈ rs, r ∈ captured := fun r hr => by
      rw [hrs] at hr
      exact List.mem_of_mem_drop (List.mem_of_mem_take hr)
    have hvalid : rs.all (valid k.pydantic) = true := by
      rw [List.all_eq_true]
      intro r hr
      obtain ⟨y, hy, -⟩ := hdeliverable r (hmem r hr)
      exact valid_of_filed (Option.isSome_of_eq_some hy)
    rcases @post_valid _ k node s rs monotonic lost h.known hvalid with
      ⟨limiter, hlimited⟩ | ⟨hbrought, hwritten⟩
    · have hout : out = _ := hlimited
      refine ⟨received, le_rfl, ?_, fun hsettles => absurd hsettles ?_, fun hhandled => ?_⟩
      · rw [hout, List.append_nil]
        exact ⟨h.known, h.bound, h.exact, h.room, h.first⟩
      · rw [hout]
        cases lost with
        | none => exact not_settles_of_lost (Or.inr (Or.inl rfl))
        | some ending => exact not_settles_of_lost (Or.inl (hfate ending rfl))
      · rw [hout]
        exact handled_getD hhandled (Or.inl (by decide))
    · generalize hys : rs.filterMap (filed k.pydantic node) = ys at hbrought hwritten
      have hsub : rs.Sublist captured := by
        rw [hrs]
        exact (List.take_sublist _ _).trans (List.drop_sublist _ _)
      have hfiled : ys.Sublist (filedRows k node captured) := hys ▸ filedRows_sublist hsub
      have hkeys : (ys.map rowKey).Nodup := hdistinct.sublist (hfiled.map rowKey)
      have hpaths : ∀ y ∈ ys, (stagingPath k.rt y).isSome := by
        intro y hy
        rw [← hys] at hy
        obtain ⟨r, hr, hry⟩ := List.mem_filterMap.mp hy
        obtain ⟨y', hy', hpath⟩ := hdeliverable r (hmem r hr)
        rw [hry] at hy'
        exact Option.some.inj hy' ▸ hpath
      have hseen : s.dedupe.seen = arrived.eraseDups.map rowKey := by
        have hholds : s.dedupe.seen = Window.lastN s.dedupe.maxsize _ := h.exact.holds
        have hsize : s.dedupe.maxsize = dedupeSize := h.exact.size
        rw [hholds, hsize, Window.lastN, List.length_map,
          Nat.sub_eq_zero_of_le h.room, List.drop_zero]
      have hroom : arrived.eraseDups.length + (ys.filter
          (rowKey · ∉ arrived.eraseDups.map rowKey)).length ≤ dedupeSize := by
        rw [hbrought, hseen, filter_byKind, (byKind_perm _).length_eq, List.length_map] at hroomy
        exact hroomy.trans_eq h.exact.size
      obtain ⟨he, hw, hexact⟩ := writeBoth_exact h.exact hpaths hkeys hroom
      obtain ⟨limiter, resp, hout, hending⟩ := hwritten he hw
      refine ⟨max received (removed + rs.length), le_max_left _ _, ?_, fun _ => le_max_right _ _,
        fun hhandled => ?_⟩
      · have harrived : out.2.1 = byKind (filedRows k node rs) := hbrought.trans (hys ▸ rfl)
        have happ : out.1 = _ := hout
        rw [harrived, happ]
        subst hys
        exact h.extend hle hdistinct hrs h.known hroom hexact
      · have hending : out.2.2 = _ := hending
        rw [hending]
        exact handled_getD hhandled (handled_ok k.py resp)

end Post

section Flush

variable {k : Link Line} {captured : List Captured} {c c' : Coordinator Line} {f f' : Flush}
  {a : Answer} {effect : Option (Effect Line)} {removed received received' : Nat}
  {queued : List Captured}

/-- The rows a flush carries: neither sent for good nor in the file. -/
def carried (f : Flush) : List Captured :=
  match f.phase with
  | .prune _ => []
  | .echo => []
  | .ended _ => []
  | _ => f.batch

theorem carried_of_over (h : f.Over) : carried f = [] := by
  obtain ⟨raised, hphase⟩ := h
  simp [carried, hphase]

/-- The queue is empty where the flush sends its batch, and what it is about to remove has arrived. -/
def Cleared (removed received : Nat) (queued : List Captured) : Client.Phase → Prop
  | .send => queued = []
  | .commit chunk _ => removed + chunk.length ≤ received
  | _ => True

/-- The rows not yet removed are, in the order of their capture, those in the file, those the flush
carries and those pending. -/
structure Stretch (k : Link Line) (captured : List Captured) (c : Coordinator Line) (f : Flush)
    (removed received : Nat) (queued : List Captured) : Prop where
  le : removed ≤ received
  lines : c.buffer.lines.map k.codec.item = queued.map fun r => .value r.item
  order : captured.drop removed = queued ++ carried f ++ c.pending
  ahead : f.Ahead k.codec c.buffer.lines
  cleared : Cleared removed received queued f.phase

theorem Stretch.intact (h : Stretch k captured c f removed received queued) :
    Intact k.codec c.buffer.lines := by
  intro l hl
  have hmem : k.codec.item l ∈ queued.map fun r => Reading.value r.item := by
    rw [← h.lines]
    exact List.mem_map_of_mem hl
  obtain ⟨r, -, hr⟩ := List.mem_map.mp hmem
  exact ⟨r, hr.symm⟩

theorem Stretch.readable (h : Stretch k captured c f removed received queued) :
    ∀ l ∈ c.buffer.lines, ∃ item, k.codec.item l = .value item := fun l hl =>
  (h.intact l hl).imp' Captured.item fun _ => id

/-- The chunk of a flush is the head of the queue. -/
theorem Stretch.held (h : Stretch k captured c f removed received queued) {chunk : List Item}
    (hheld : f.held = some chunk) :
    chunk = (queued.take chunk.length).map Captured.item ∧ chunk.length ≤ queued.length := by
  have hahead := h.ahead chunk hheld
  rw [List.map_take, h.lines, ← List.map_take] at hahead
  have hitems : (queued.take chunk.length).map Captured.item = chunk := by
    refine List.map_injective_iff.mpr (fun i j hij => ?_) (?_ : List.map Reading.value _ = _)
    · exact Reading.value.inj hij
    · rw [List.map_map]
      exact hahead
  refine ⟨hitems.symm, ?_⟩
  have hlength := congrArg List.length hitems
  rw [List.length_map, List.length_take] at hlength
  omega

/-- A step that leaves the file, the carried and the pending rows alone. -/
theorem Stretch.stay (h : Stretch k captured c f removed received queued)
    (hreceived : received ≤ received') (hahead : f'.Ahead k.codec c'.buffer.lines)
    (hbuffer : c'.buffer = c.buffer) (hcarried : carried f' = carried f)
    (hpending : c'.pending = c.pending) (hcleared : Cleared removed received' queued f'.phase) :
    Stretch k captured c' f' removed received' queued where
  le := h.le.trans hreceived
  lines := hbuffer ▸ h.lines
  order := by rw [h.order, hcarried, hpending]
  ahead := hahead
  cleared := hcleared

/-- What one step of a flush does to the rows not yet removed. -/
theorem move_stretch (hmove : Move k.py k.codec c f a c' f' effect)
    (h : Stretch k captured c f removed received queued) (hreceived : received ≤ received')
    (hsettles : ∀ items, posted f = some items → a.exchange.Settles k.py →
      removed + items.length ≤ received')
    (hhandled : ∀ items, posted f = some items → f.batch = [] ∨ a.exchange.Handled k.py)
    (hprune : ∀ drained, f.phase = .prune drained →
      ∃ buffer, c.buffer.prune k.codec k.py a.now = .ok (buffer, 0)) :
    ∃ removed' queued', Stretch k captured c' f' removed' received' queued' := by
  have hahead := move_ahead hmove h.intact h.ahead
  obtain ⟨batch, phase⟩ := f
  cases hmove with
  | peekRaised e hphase hpeek =>
    obtain ⟨chunk, hchunk⟩ := Codec.items_of_readable h.readable drainChunk
    rw [DiskBuffer.peek, hchunk] at hpeek
    cases hpeek
  | peekNothing hphase hpeek hbatch =>
    cases hphase
    have hcarried : [] = batch := Eq.symm hbatch
    exact ⟨_, _, h.stay hreceived hahead rfl hcarried rfl trivial⟩
  | peekEmpty hphase hpeek hbatch =>
    cases hphase
    have hempty : c.buffer.lines = [] := Codec.items_nil h.readable hpeek
    have hqueued : queued = [] := by
      have hlines := h.lines
      rw [hempty] at hlines
      exact List.map_eq_nil_iff.mp hlines.symm
    exact ⟨_, _, h.stay hreceived hahead rfl rfl rfl hqueued⟩
  | peekChunk chunk hphase hpeek hchunk =>
    cases hphase
    exact ⟨_, _, h.stay hreceived hahead rfl rfl rfl trivial⟩
  | pushSettled chunk total hphase hdone =>
    cases hphase
    exact ⟨_, _, h.stay hreceived hahead rfl rfl rfl (hsettles chunk rfl hdone)⟩
  | pushFailed chunk hphase hknown hfails hbatch =>
    cases hphase
    exact ⟨_, _, h.stay hreceived hahead rfl rfl rfl trivial⟩
  | pushOffline chunk hphase hknown hfails hbatch =>
    cases hphase
    have hcarried : [] = batch := Eq.symm hbatch
    exact ⟨_, _, h.stay hreceived hahead rfl hcarried rfl trivial⟩
  | pushRaised chunk e hphase hraised =>
    cases hphase
    have hcarried : [] = batch := Eq.symm ((hhandled chunk rfl).resolve_right hraised)
    exact ⟨_, _, h.stay hreceived hahead rfl hcarried rfl trivial⟩
  | commit chunk answer hphase =>
    cases hphase
    obtain ⟨-, hlength⟩ := h.held rfl
    refine ⟨removed + chunk.length, queued.drop chunk.length, ?_, ?_, ?_, hahead, trivial⟩
    · exact h.cleared.trans hreceived
    · rw [DiskBuffer.lines_commit, List.map_drop, h.lines, List.map_drop]
    · rw [← List.drop_drop, h.order, List.append_assoc, List.append_assoc,
        List.drop_append_of_le_length hlength]
      rfl
  | sendSettled total online hphase hdone =>
    cases hphase
    have hqueued : queued = [] := h.cleared
    subst hqueued
    have hsent := hsettles _ rfl hdone
    rw [List.length_map] at hsent
    refine ⟨removed + batch.length, [], hsent, h.lines, ?_, hahead, trivial⟩
    rw [← List.drop_drop, h.order]
    exact List.drop_left
  | sendFailed hphase hknown hfails =>
    cases hphase
    exact ⟨_, _, h.stay hreceived hahead rfl rfl rfl trivial⟩
  | sendRaised e hphase hraised =>
    cases hphase
    have hcarried : [] = batch := Eq.symm ((hhandled _ rfl).resolve_right hraised)
    exact ⟨_, _, h.stay hreceived hahead rfl hcarried rfl trivial⟩
  | append drained hphase =>
    cases hphase
    refine ⟨removed, queued ++ batch, h.le.trans hreceived, ?_, ?_, hahead, trivial⟩
    · rw [DiskBuffer.lines_append, List.map_append, List.map_append, h.lines, List.map_map]
      congr 1
      exact List.map_congr_left fun r _ => Codec.item_record _ r
    · rw [h.order]
      simp [carried]
  | pruneRaised drained e hphase hraised =>
    obtain ⟨buffer, hnone⟩ := hprune drained hphase
    rw [hraised] at hnone
    cases hnone
  | pruned drained buffer dropped phase' hphase hpruned hphase' =>
    obtain ⟨buffer', hnone⟩ := hprune drained hphase
    rw [hpruned] at hnone
    cases hnone
    cases hphase
    have hsame : buffer = c.buffer := DiskBuffer.prune_zero hpruned
    cases drained <;> subst hphase' <;>
      exact ⟨_, _, h.stay hreceived hahead hsame rfl rfl trivial⟩
  | echo hphase =>
    cases hphase
    exact ⟨_, _, h.stay hreceived hahead rfl rfl rfl trivial⟩
  | ended raised hphase =>
    cases hphase
    exact ⟨_, _, h.stay hreceived hahead rfl rfl rfl trivial⟩

end Flush

end GridWitness.Delivery
