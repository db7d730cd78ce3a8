import GridWitness.Acquirer.CoverageLaws
import GridWitness.Acquirer.LandLaws

namespace GridWitness.Acquirer

open Library Server

section Staging

variable {rt : Runtime} {host : Host} {kind : Kind} {node : String} {tree tree' : StagingTree}

/-- The staged rows of every other node, in the order of their file. -/
def stagedOthers (host : Host) (node : String) (tree : StagingTree) (p : StagingPath) : List Row :=
  (dictRows host (tree.lines p)).filter (notOf node)

/-- Appends that differ in the rows of one node alone stage the same rows of every other. -/
theorem stagedOthers_appended {rows rows' : List Row} (htree : Intact tree) (htree' : Intact tree')
    (hstaged : ∀ p, stagedOthers host node tree p = stagedOthers host node tree' p)
    (hothers : rows.filter (notOf node <| stagedRow host kind ·) =
      rows'.filter (notOf node <| stagedRow host kind ·))
    (haccepted : ∀ r ∈ rows ++ rows', notOf node (stagedRow host kind r) = false →
      (StagingWriter.path rt kind kind.tsField r).isSome) (p : StagingPath) :
    stagedOthers host node (appended rt kind tree rows) p =
      stagedOthers host node (appended rt kind tree' rows') p := by
  have hpaths : ∀ {rows : List Row}, (∀ r ∈ rows, notOf node (stagedRow host kind r) = false →
      (StagingWriter.path rt kind kind.tsField r).isSome) →
      (Paths rt kind rows ↔ Paths rt kind (rows.filter (notOf node <| stagedRow host kind ·))) := by
    intro rows haccepted
    refine ⟨fun h r hr => h r (List.mem_filter.mp hr).1, fun h r hr => ?_⟩
    cases hnode : notOf node (stagedRow host kind r) with
    | false => exact haccepted r hr hnode
    | true => exact h r (List.mem_filter.mpr ⟨hr, hnode⟩)
  have hleft := hpaths fun r hr => haccepted r (List.mem_append_left _ hr)
  have hright := hpaths fun r hr => haccepted r (List.mem_append_right _ hr)
  by_cases h : Paths rt kind rows
  · have hgroup : ∀ rows : List Row,
        ((rows.filter (StagingWriter.path rt kind kind.tsField · = some p)).map
          (stagedRow host kind)).filter (notOf node) =
        ((rows.filter (notOf node <| stagedRow host kind ·)).filter
          (StagingWriter.path rt kind kind.tsField · = some p)).map (stagedRow host kind) := by
      intro rows
      rw [List.filter_map, List.filter_comm]
      rfl
    have hstaged := hstaged p
    rw [stagedOthers, stagedOthers] at hstaged ⊢
    rw [dictRows_appended htree h, dictRows_appended htree' (hright.mpr (hothers ▸ hleft.mp h)),
      List.filter_append, List.filter_append, hgroup, hgroup, hothers, hstaged]
  · rw [appended_of_not_paths h,
      appended_of_not_paths fun h' => h (hleft.mpr (hothers ▸ hright.mp h'))]
    exact hstaged p

instance : Std.Total pathLe where
  total p q := by
    rcases lt_trichotomy p.date q.date with h | h | h
    · exact Or.inl (Or.inl h)
    · exact (le_total (p.hour ++ ".csv") (q.hour ++ ".csv")).imp (fun hle => Or.inr ⟨h, hle⟩)
        fun hle => Or.inr ⟨h.symm, hle⟩
    · exact Or.inr (Or.inl h)

instance : IsTrans StagingPath pathLe where
  trans p q r := by
    rintro (h | ⟨h, hle⟩) (h' | ⟨h', hle'⟩)
    · exact Or.inl (h.trans h')
    · exact Or.inl (h' ▸ h)
    · exact Or.inl (h ▸ h')
    · exact Or.inr ⟨h.trans h', hle.trans hle'⟩

theorem pathLe_antisymm {p q : StagingPath} (hkind : p.kind = q.kind) (h : pathLe p q)
    (h' : pathLe q p) : p = q := by
  obtain ⟨kind, date, hour⟩ := p
  obtain ⟨kind', date', hour'⟩ := q
  obtain ⟨hdate, hle⟩ := h.resolve_left fun hlt =>
    h'.elim hlt.asymm fun heq => hlt.ne heq.1.symm
  have hle' := (h'.resolve_left fun hlt => hlt.ne hdate.symm).2
  have hhour : (hour ++ ".csv").toList = (hour' ++ ".csv").toList := by rw [le_antisymm hle hle']
  rw [String.toList_append, String.toList_append, List.append_cancel_right_eq] at hhour
  rw [StagingPath.mk.injEq]
  exact ⟨hkind, hdate, String.toList_injective hhour⟩

theorem mem_of_stagedOthers {p : StagingPath} (h : stagedOthers host node tree p ≠ []) : p ∈ tree := by
  obtain ⟨d, hd⟩ := List.exists_mem_of_ne_nil _ h
  exact mem_of_dictRows (List.mem_filter.mp hd).1

/-- The files a read takes rows of the other nodes from. -/
def filesRead (host : Host) (node : String) (tree : StagingTree) (kind : Kind)
    (since : Option String) : List StagingPath :=
  ((hourFiles tree kind).filter (!covered since ·)).filter (stagedOthers host node tree · ≠ [])

theorem mem_filesRead {since : Option String} {p : StagingPath} :
    p ∈ filesRead host node tree kind since ↔
      p.kind = kind ∧ covered since p = false ∧ stagedOthers host node tree p ≠ [] := by
  simp only [filesRead, List.mem_filter, mem_hourFiles, Bool.not_eq_true', decide_eq_true_eq]
  exact ⟨fun ⟨⟨⟨_, hkind⟩, hcov⟩, hne⟩ => ⟨hkind, hcov, hne⟩,
    fun ⟨hkind, hcov, hne⟩ => ⟨⟨⟨mem_of_stagedOthers hne, hkind⟩, hcov⟩, hne⟩⟩

theorem readStaging_filter (since : Option String) :
    (readStaging host tree kind since).filter (notOf node) =
      (filesRead host node tree kind since).flatMap (stagedOthers host node tree) := by
  rw [readStaging, List.filter_flatMap, filesRead]
  generalize (hourFiles tree kind).filter (!covered since ·) = ps
  induction ps with
  | nil => rfl
  | cons p ps ih =>
    rw [List.flatMap_cons, ih]
    by_cases hp : stagedOthers host node tree p = []
    · rw [List.filter_cons_of_neg (by simpa using hp), ← stagedOthers, hp, List.nil_append]
    · rw [List.filter_cons_of_pos (by simpa using hp), List.flatMap_cons, ← stagedOthers]

theorem filesRead_pairwise (since : Option String) :
    (filesRead host node tree kind since).Pairwise pathLe :=
  (List.pairwise_insertionSort pathLe _).sublist (List.filter_sublist.trans List.filter_sublist)

theorem filesRead_nodup (since : Option String) :
    (filesRead host node tree kind since).Nodup := by
  have hpaths : (hourFiles tree kind).Nodup := by
    rw [hourFiles, (List.perm_insertionSort _ _).nodup_iff]
    exact tree.keys_nodup.filter _
  exact (hpaths.filter _).filter _

/-- Reads that cover the files of every other node alike read the same rows of them. -/
theorem readStaging_others {since since' : Option String}
    (hstaged : ∀ p, stagedOthers host node tree p = stagedOthers host node tree' p)
    (hcovered : ∀ p ∈ hourFiles tree kind, stagedOthers host node tree p ≠ [] →
      covered since p = covered since' p) :
    (readStaging host tree kind since).filter (notOf node) =
      (readStaging host tree' kind since').filter (notOf node) := by
  have hmem : ∀ p, p ∈ filesRead host node tree kind since ↔
      p ∈ filesRead host node tree' kind since' := by
    intro p
    rw [mem_filesRead, mem_filesRead, ← hstaged]
    refine and_congr_right fun hkind => and_congr_left fun hne => ?_
    rw [hcovered p (mem_hourFiles.mpr ⟨mem_of_stagedOthers hne, hkind⟩) hne]
  have hfiles : filesRead host node tree kind since = filesRead host node tree' kind since' := by
    refine List.Perm.eq_of_pairwise (fun p q hp hq => ?_) (filesRead_pairwise since)
      (filesRead_pairwise since') ?_
    · exact pathLe_antisymm ((mem_filesRead.mp hp).1.trans (mem_filesRead.mp hq).1.symm)
    · exact (List.perm_ext_iff_of_nodup (filesRead_nodup since) (filesRead_nodup since')).mpr hmem
  rw [readStaging_filter, readStaging_filter, hfiles]
  exact List.flatMap_congr fun p _ => hstaged p

theorem frame_others (rows : List Row) :
    others node (frame host kind rows) = (rows.filter (notOf node)).filterMap
      (frameRow host kind (layoutOf host (rows.map (·.get (tsColumn kind))))) := by
  rw [frame]
  generalize layoutOf host (rows.map (·.get (tsColumn kind))) = layout
  have hnode : ∀ r fr, frameRow host kind layout r = some fr →
      notOf node fr.values = notOf node r := by
    intro r fr hfr
    simp only [frameRow] at hfr
    split at hfr
    · cases hfr
    · split at hfr
      · cases hfr
      · cases hfr
        have hcolumn : "node_id" ∈ columns kind ∧ "node_id" ∉ numericColumns kind := by
          cases kind <;> decide
        simp only [notOf, get_columns, if_pos hcolumn.1, if_neg hcolumn.2]
  induction rows with
  | nil => rfl
  | cons r rows ih =>
    rw [List.filterMap_cons, List.filter_cons]
    cases hfr : frameRow host kind layout r with
    | none =>
      rw [ih]
      split
      · rw [List.filterMap_cons, hfr]
      · rfl
    | some fr =>
      rw [others, List.filter_cons, hnode r fr hfr, ← others, ih]
      split
      · rw [List.filterMap_cons, hfr]
      · rfl

/-- A read covers the files of every other node alike in both histories, and dates their rows alike. -/
structure ReadsAlike (host : Host) (node : String) (kind : Kind) (tree tree' : StagingTree)
    (since since' : Option String) : Prop where
  files : ∀ p ∈ hourFiles tree kind, stagedOthers host node tree p ≠ [] →
    covered since p = covered since' p
  times : ∀ r ∈ readStaging host tree kind since, notOf node r →
    readTime host (layoutOf host ((readStaging host tree kind since).map (·.get (tsColumn kind))))
        (r.get (tsColumn kind)) =
      readTime host (layoutOf host ((readStaging host tree' kind since').map (·.get (tsColumn kind))))
        (r.get (tsColumn kind))

instance {since since' : Option String} :
    Decidable (ReadsAlike host node kind tree tree' since since') :=
  decidable_of_iff (_ ∧ _) ⟨fun h => ⟨h.1, h.2⟩, fun h => ⟨h.1, h.2⟩⟩

theorem ReadsAlike.frames {since since' : Option String}
    (h : ReadsAlike host node kind tree tree' since since')
    (hstaged : ∀ p, stagedOthers host node tree p = stagedOthers host node tree' p) :
    others node (frame host kind (readStaging host tree kind since)) =
      others node (frame host kind (readStaging host tree' kind since')) := by
  rw [frame_others, frame_others, ← readStaging_others hstaged h.files]
  refine List.filterMap_congr fun r hr => ?_
  obtain ⟨hr, hnode⟩ := List.mem_filter.mp hr
  rw [frameRow, frameRow, h.times r hr hnode]

end Staging

namespace Process

variable {rt : Runtime} {host : Host} {node : String} {x x' : Process}

/-- Two events of histories that differ in the rows of one node alone, where staging accepts the
timestamps of that node. -/
inductive SameBut (rt : Runtime) (host : Host) (node : String) : Event → Event → Prop
  | append {kind : Kind} {rows rows' : List Row}
      (others : rows.filter (notOf node <| stagedRow host kind ·) =
        rows'.filter (notOf node <| stagedRow host kind ·))
      (accepted : ∀ r ∈ rows ++ rows', notOf node (stagedRow host kind r) = false →
        (StagingWriter.path rt kind kind.tsField r).isSome) :
      SameBut rt host node (.append kind rows) (.append kind rows')
  | acquire : SameBut rt host node .acquire .acquire

def stepBoth (rt : Runtime) (host : Host) (s : Process × Process) (e : Event × Event) :
    Process × Process :=
  (step rt host s.1 e.1, step rt host s.2 e.2)

/-- What the next access must do alike in both histories: a read its part on every other node, a
landing its merges. -/
def Isolated (host : Host) (node : String) (s : Process × Process) (e : Event × Event) : Prop :=
  match e.1, s.1.phase, s.2.phase with
  | .acquire, .covering state (kind :: _), .covering state' _ =>
    ReadsAlike host node kind s.1.tree s.2.tree (state kind) (state' kind)
  | .acquire, .holding _ kind rows _, .holding _ _ rows' _ =>
    MergesAlike host node kind s.1.lake s.2.lake (frame host kind rows) (frame host kind rows')
  | _, _, _ => True

instance (s : Process × Process) (e : Event × Event) : Decidable (Isolated host node s e) :=
  match e, s with
  | (.append _ _, _), _ => isTrue trivial
  | (.acquire, _), (⟨_, _, _, .idle, _⟩, _) => isTrue trivial
  | (.acquire, _), (⟨_, _, _, .covering _ [], _⟩, _) => isTrue trivial
  | (.acquire, _), (⟨_, _, _, .landed _ _ _, _⟩, _) => isTrue trivial
  | (.acquire, _), (⟨tree, _, _, .covering state (kind :: _), _⟩, ⟨tree', _, _, phase', _⟩) =>
    match phase' with
    | .covering state' _ =>
      inferInstanceAs (Decidable (ReadsAlike host node kind tree tree' (state kind) (state' kind)))
    | .idle => isTrue trivial
    | .holding _ _ _ _ => isTrue trivial
    | .landed _ _ _ => isTrue trivial
  | (.acquire, _), (⟨_, lake, _, .holding _ kind rows _, _⟩, ⟨_, lake', _, phase', _⟩) =>
    match phase' with
    | .holding _ _ rows' _ =>
      inferInstanceAs (Decidable
        (MergesAlike host node kind lake lake' (frame host kind rows) (frame host kind rows')))
    | .idle => isTrue trivial
    | .covering _ _ => isTrue trivial
    | .landed _ _ _ => isTrue trivial

inductive PhasesAlike (host : Host) (node : String) : Phase → Phase → Prop
  | idle : PhasesAlike host node .idle .idle
  | covering (state state' : State) (todo : List Kind) :
    PhasesAlike host node (.covering state todo) (.covering state' todo)
  | holding (state state' : State) (kind : Kind) {rows rows' : List Row} (todo : List Kind)
      (frames : others node (frame host kind rows) = others node (frame host kind rows')) :
    PhasesAlike host node (.holding state kind rows todo) (.holding state' kind rows' todo)
  | landed (state state' : State) (kind : Kind) (todo : List Kind) :
    PhasesAlike host node (.landed state kind todo) (.landed state' kind todo)

/-- The rows of every other node are the same in two processes, wherever they are. -/
structure SameOthers (host : Host) (node : String) (x x' : Process) : Prop where
  intact : Intact x.tree
  intact' : Intact x'.tree
  staged : ∀ p, stagedOthers host node x.tree p = stagedOthers host node x'.tree p
  shaped : ∀ p, ∀ r ∈ rowsOf x.lake p, Shaped p.1 r
  shaped' : ∀ p, ∀ r ∈ rowsOf x'.lake p, Shaped p.1 r
  lakes : OthersAgree node x.lake x'.lake
  phases : PhasesAlike host node x.phase x'.phase

theorem start_sameOthers (host : Host) (node : String) :
    SameOthers host node (start ∅) (start ∅) := by
  have hempty : ∀ p, ∀ r ∈ rowsOf ∅ p, Shaped p.1 r := fun p r hr => by
    simp [rowsOf] at hr
  exact ⟨fun p hp => by simp [start] at hp, fun p hp => by simp [start] at hp, fun _ => rfl, hempty,
    hempty, fun _ _ => rfl, .idle⟩

theorem acquire_sameOthers (h : SameOthers host node x x')
    (hisolated : Isolated host node (x, x') (.acquire, .acquire)) :
    SameOthers host node (x.acquire host) (x'.acquire host) := by
  obtain ⟨tree, lake, saved, phase, started⟩ := x
  obtain ⟨tree', lake', saved', phase', started'⟩ := x'
  obtain ⟨hintact, hintact', hstaged, hshaped, hshaped', hlakes, hphases⟩ := h
  cases hphases with
  | idle => exact ⟨hintact, hintact', hstaged, hshaped, hshaped', hlakes, .covering _ _ _⟩
  | covering state state' todo =>
    cases todo with
    | nil => exact ⟨hintact, hintact', hstaged, hshaped, hshaped', hlakes, .idle⟩
    | cons kind todo =>
      have hreads : ReadsAlike host node kind tree tree' (state kind) (state' kind) := hisolated
      exact ⟨hintact, hintact', hstaged, hshaped, hshaped', hlakes,
        .holding _ _ _ _ (hreads.frames hstaged)⟩
  | holding state state' kind todo hframes =>
    have hmerges : MergesAlike host node kind lake lake' _ _ := hisolated
    exact ⟨hintact, hintact', hstaged, land_shaped hshaped fun r hr => frame_shaped hr,
      land_shaped hshaped' fun r hr => frame_shaped hr,
      land_agree hlakes hframes hshaped hshaped' hmerges, .landed _ _ _ _⟩
  | landed state state' kind todo =>
    exact ⟨hintact, hintact', hstaged, hshaped, hshaped', hlakes, .covering _ _ _⟩

theorem stepBoth_sameOthers {s : Process × Process} {e : Event × Event}
    (h : SameOthers host node s.1 s.2) (hsame : SameBut rt host node e.1 e.2)
    (hisolated : Isolated host node s e) :
    SameOthers host node (stepBoth rt host s e).1 (stepBoth rt host s e).2 := by
  obtain ⟨e, e'⟩ := e
  cases hsame with
  | append hothers haccepted =>
    exact ⟨appended_intact h.intact, appended_intact h.intact',
      stagedOthers_appended h.intact h.intact' h.staged hothers haccepted, h.shaped, h.shaped',
      h.lakes, h.phases⟩
  | acquire => exact acquire_sameOthers h hisolated

theorem run_sameOthers {s : Process × Process} {events : List (Event × Event)}
    (h : SameOthers host node s.1 s.2) (hsame : ∀ e ∈ events, SameBut rt host node e.1 e.2)
    (hisolated : Trace.Along (stepBoth rt host) (Isolated host node) s events) :
    SameOthers host node (events.foldl (stepBoth rt host) s).1
      (events.foldl (stepBoth rt host) s).2 := by
  induction events generalizing s with
  | nil => exact h
  | cons e events ih =>
    obtain ⟨he, hevents⟩ := List.forall_mem_cons.mp hsame
    exact ih (stepBoth_sameOthers h he hisolated.1) hevents hisolated.2

theorem foldl_stepBoth (s : Process × Process) (events : List (Event × Event)) :
    events.foldl (stepBoth rt host) s =
      ((events.map (·.1)).foldl (step rt host) s.1, (events.map (·.2)).foldl (step rt host) s.2) := by
  induction events generalizing s with
  | nil => rfl
  | cons e events ih => exact ih (stepBoth rt host s e)

end Process

/-- In two histories that differ in the rows of one node alone, and whose runs are isolated from it,
the lake holds the same rows of every other node. -/
theorem others_same (rt : Runtime) (host : Host) (node : String) (events : List (Event × Event))
    (hsame : ∀ e ∈ events, Process.SameBut rt host node e.1 e.2)
    (hisolated : Trace.Along (Process.stepBoth rt host) (Process.Isolated host node)
      (.start ∅, .start ∅) events) :
    let x := (events.map (·.1)).foldl (Process.step rt host) (.start ∅)
    let x' := (events.map (·.2)).foldl (Process.step rt host) (.start ∅)
    ∀ p, (others node (rowsOf x.lake p)).Perm (others node (rowsOf x'.lake p)) := by
  intro x x' p
  have h := Process.run_sameOthers (Process.start_sameOthers host node) hsame hisolated
  rw [Process.foldl_stepBoth] at h
  exact (h.lakes p).perm

def readingOf (node ts : String) : Row :=
  [("node_id", .text node), ("ts_utc", .text ts), ("phase", .text "1p"),
    ("frequency_hz", .num (.fin 50))]

/-- A row of one node in both histories. -/
def shared (ts : String) : Event × Event :=
  (.append .electrical [readingOf "n1" ts], .append .electrical [readingOf "n1" ts])

/-- A row of another node in the first history alone. -/
def added (ts : String) : Event × Event :=
  (.append .electrical [readingOf "n2" ts], .append .electrical [])

def bothRun : List (Event × Event) := List.replicate 8 (.acquire, .acquire)

theorem shared_sameBut {ts : String} :
    Process.SameBut .ascii .july "n2" (shared ts).1 (shared ts).2 := by
  refine .append rfl fun r hr hnode => ?_
  simp only [List.cons_append, List.nil_append, List.mem_cons, List.not_mem_nil, or_false,
    or_self] at hr
  subst hr
  cases hnode

theorem added_sameBut {ts : String} (h : (Runtime.ascii.parseIso ts).isSome) :
    Process.SameBut .ascii .july "n2" (added ts).1 (added ts).2 := by
  refine .append rfl fun r hr _ => ?_
  rw [List.append_nil, List.mem_singleton] at hr
  subst hr
  have hts : (readingOf "n2" ts).get Kind.electrical.tsField = .text ts := rfl
  rw [StagingWriter.path, hts, Option.isSome_map]
  exact h

theorem bothRun_sameBut {node : String} :
    ∀ e ∈ bothRun, Process.SameBut .ascii .july node e.1 e.2 := by
  intro e he
  rw [(List.mem_replicate.mp he).2]
  exact .acquire

theorem others_same_nineOClock :
    let events := [added "2026-07-10T09:30:00Z", shared "2026-07-10T09:00:00Z"] ++ bothRun
    let x := (events.map (·.1)).foldl (Process.step .ascii .july) (.start ∅)
    let x' := (events.map (·.2)).foldl (Process.step .ascii .july) (.start ∅)
    ∀ p, (others "n2" (rowsOf x.lake p)).Perm (others "n2" (rowsOf x'.lake p)) := by
  have hadded := @added_sameBut "2026-07-10T09:30:00Z" (by decide +kernel)
  exact others_same .ascii .july "n2" _
    (List.forall_mem_cons.mpr ⟨hadded, List.forall_mem_cons.mpr ⟨shared_sameBut, bothRun_sameBut⟩⟩)
    (by decide +kernel)

/-- A row two days ahead moves the cursor of the first history past the row of the other node. -/
theorem row_ahead_hides_others :
    ¬ ∀ (rt : Runtime) (host : Host) (node : String) (events : List (Event × Event)),
      (∀ e ∈ events, Process.SameBut rt host node e.1 e.2) →
      let x := (events.map (·.1)).foldl (Process.step rt host) (.start ∅)
      let x' := (events.map (·.2)).foldl (Process.step rt host) (.start ∅)
      x.phase = .idle → ∀ p, (others node (rowsOf x.lake p)).Perm (others node (rowsOf x'.lake p)) := by
  intro h
  have hadded := @added_sameBut "2026-07-12T09:00:00Z" (by decide +kernel)
  have hfirst : ∀ e ∈ added "2026-07-12T09:00:00Z" :: bothRun,
      Process.SameBut .ascii .july "n2" e.1 e.2 :=
    List.forall_mem_cons.mpr ⟨hadded, bothRun_sameBut⟩
  have hsecond : ∀ e ∈ shared "2026-07-10T09:00:00Z" :: bothRun,
      Process.SameBut .ascii .july "n2" e.1 e.2 :=
    List.forall_mem_cons.mpr ⟨shared_sameBut, bothRun_sameBut⟩
  have hsame := List.forall_mem_append.mpr ⟨hfirst, hsecond⟩
  have hperm := h .ascii .july "n2" _ hsame rfl (.electrical, 2026, 28)
  revert hperm
  decide +kernel

end GridWitness.Acquirer
