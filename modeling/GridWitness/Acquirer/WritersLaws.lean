import GridWitness.Acquirer.RunLaws
import GridWitness.Server.StagedLines
import GridWitness.Server.Writers

namespace GridWitness.Server

open Library

/-- What a call has to do with a file: it found none and will make it, it made it and will write the
header, or it found it or is past the header. -/
inductive Role
  | away | maker | heading | inside
  deriving DecidableEq

namespace Appending

def role (p : StagingPath) : Appending → Role
  | .idle => .away
  | .next _ => .away
  | .checked q newFile _ _ => if p = q then if newFile then .maker else .inside else .away
  | .header q _ _ => if p = q then .heading else .away
  | .rows q _ _ => if p = q then .inside else .away

/-- The next effect of a call meets another one that is making the same file. -/
def clashes : Appending → Appending → Bool
  | .next ((p, _) :: _), other => other.role p = .maker
  | .rows p (_ :: _) _, other => other.role p = .heading
  | _, _ => false

def groupsAt (p : StagingPath) (todo : List (StagingPath × List Row)) : List Row :=
  todo.flatMap fun file => if p = file.1 then file.2 else []

/-- The rows the call still has for a file. -/
def left (p : StagingPath) : Appending → List Row
  | .idle => []
  | .next todo => groupsAt p todo
  | .checked q _ group todo => groupsAt p ((q, group) :: todo)
  | .header q group todo => groupsAt p ((q, group) :: todo)
  | .rows q group todo => groupsAt p ((q, group) :: todo)

theorem groupsAt_of_notMem {p : StagingPath} {todo : List (StagingPath × List Row)}
    (h : p ∉ Bucket.keys todo) : groupsAt p todo = [] := by
  refine List.flatMap_eq_nil_iff.mpr fun file hfile => if_neg ?_
  rintro rfl
  exact h (List.mem_map_of_mem hfile)

theorem groupsAt_eq_group {p : StagingPath} {todo : List (StagingPath × List Row)}
    (h : (Bucket.keys todo).Nodup) : groupsAt p todo = Bucket.group p todo := by
  induction todo with
  | nil => rfl
  | cons file todo ih =>
    obtain ⟨hfile, htodo⟩ := List.nodup_cons.mp h
    rw [groupsAt, List.flatMap_cons, ← groupsAt, Bucket.group]
    by_cases hp : p = file.1
    · rw [if_pos hp, if_pos hp.symm, groupsAt_of_notMem (hp ▸ hfile), List.append_nil]
    · rw [if_neg hp, if_neg (Ne.symm hp), ih htodo, List.nil_append]

/-- The buckets of a call hold for each file the rows that belong there. -/
theorem groupsAt_buckets {rt : Runtime} {rows : List Row} {todo : List (StagingPath × List Row)}
    (h : Writers.buckets rt rows = some todo) (p : StagingPath) :
    groupsAt p todo = rows.filter (Writers.pathOf rt · = some p) := by
  obtain ⟨located, hlocated, rfl⟩ := Option.map_eq_some_iff.mp h
  rw [groupsAt_eq_group, Bucket.group_mapGroups _ rfl, Bucket.group_bucket]
  · exact StagingWriter.located_filter hlocated p
  · rw [Bucket.keys_mapGroups]
    exact Bucket.keys_bucket_nodup _ _

end Appending

/-- What holds of a file between two effects, by the roles of the writers: at most one makes it, and
it is empty until that one has written the header. -/
structure FileInv (role : Writer → Role) (present : Prop) (lines : List Line) (rows : List Row) :
    Prop where
  absent : ∀ i, role i = .maker → ¬ present
  due : ∀ i, role i = .heading → present ∧ lines = [] ∧ rows = []
  sole : ∀ i j, role i = .maker ∨ role i = .heading → role j = .maker ∨ role j = .heading → i = j
  made : present → (∀ i, role i ≠ .heading) →
    lines = Kind.header .electrical :: rows.map (Kind.csvLine .electrical)
  fresh : ¬ present → rows = [] ∧ ∀ i, role i ≠ .inside

namespace FileInv

variable {role : Writer → Role} {present : Prop} {lines : List Line} {rows : List Row} {i : Writer}

theorem none : FileInv (fun _ => .away) False [] [] where
  absent _ h := nomatch h
  due _ h := nomatch h
  sole _ _ h := by simp at h
  made := nofun
  fresh _ := ⟨rfl, fun _ => nofun⟩

theorem no_heading {r : Role} (h : ∀ j, Function.update role i r j ≠ .heading) {j : Writer}
    (hj : j ≠ i) : role j ≠ .heading := by
  have hj' := h j
  rwa [Function.update_of_ne hj] at hj'

/-- A call that turns to a file finds it there, -/
theorem find (h : FileInv role present lines rows) (haway : role i = .away) (hpresent : present) :
    FileInv (Function.update role i .inside) present lines rows where
  absent j := by grind [h.absent j]
  due j := by grind [h.due j]
  sole j k := by grind [h.sole j k]
  made _ hnone := by
    refine h.made hpresent fun j hj => ?_
    exact no_heading hnone (by rintro rfl; simp [haway] at hj) hj
  fresh hnot := absurd hpresent hnot

/-- or is the only one to make it. -/
theorem claim (h : FileInv role present lines rows) (hnone : ∀ j, role j ≠ .maker)
    (habsent : ¬ present) :
    FileInv (Function.update role i .maker) present lines rows := by
  have hdue : ∀ j, role j ≠ .heading := fun j hj => habsent (h.due j hj).1
  exact
    { absent := fun _ _ => habsent
      due := fun j => by grind
      sole := fun j k => by grind
      made := fun hpresent => absurd hpresent habsent
      fresh := fun hnot => ⟨(h.fresh hnot).1, fun j => by grind [(h.fresh hnot).2 j]⟩ }

theorem there (h : FileInv role present lines rows) (hinside : role i = .inside) : present := by
  by_contra hnot
  exact (h.fresh hnot).2 i hinside

theorem openNew (h : FileInv role present lines rows) (hmaker : role i = .maker)
    (hlines : ¬ present → lines = []) : FileInv (Function.update role i .heading) True lines rows := by
  have habsent := h.absent i hmaker
  exact
    { absent := fun j => by grind [h.sole i j]
      due := fun _ _ => ⟨trivial, hlines habsent, (h.fresh habsent).1⟩
      sole := fun j k => by grind [h.sole i j, h.sole i k]
      made := fun _ hnone => absurd (Function.update_self ..) (hnone i)
      fresh := fun hnot => absurd trivial hnot }

theorem writeHeader (h : FileInv role present lines rows) (hdue : role i = .heading) :
    FileInv (Function.update role i .inside) True (lines ++ [Kind.header .electrical]) rows := by
  obtain ⟨-, hlines, hrows⟩ := h.due i hdue
  exact
    { absent := fun j => by grind [h.sole i j]
      due := fun j => by grind [h.sole i j]
      sole := fun j k => by grind [h.sole i j, h.sole i k]
      made := fun _ _ => by rw [hlines, hrows]; rfl
      fresh := fun hnot => absurd trivial hnot }

theorem writeRow (h : FileInv role present lines rows) (hinside : role i = .inside)
    (hnone : ∀ j, role j ≠ .heading) (r : Row) :
    FileInv role True (lines ++ [Kind.csvLine .electrical r]) (rows ++ [r]) := by
  have hpresent := h.there hinside
  exact
    { absent := fun j hj => absurd hpresent (h.absent j hj)
      due := fun j hj => absurd hj (hnone j)
      sole := h.sole
      made := fun _ _ => by
        rw [h.made hpresent hnone, List.map_append, List.cons_append]
        rfl
      fresh := fun hnot => absurd trivial hnot }

theorem leave (h : FileInv role present lines rows) (hinside : role i = .inside) :
    FileInv (Function.update role i .away) present lines rows where
  absent j := by grind [h.absent j]
  due j := by grind [h.due j]
  sole j k := by grind [h.sole j k]
  made hpresent hnone := by
    refine h.made hpresent fun j hj => ?_
    exact no_heading hnone (by rintro rfl; simp [hinside] at hj) hj
  fresh hnot := ⟨(h.fresh hnot).1, fun j => by grind [(h.fresh hnot).2 j]⟩

end FileInv

namespace Writers

variable {rt : Runtime} {x : Writers} {i : Writer} {p : StagingPath}

def role (x : Writers) (p : StagingPath) : Writer → Role := fun j => (x.call j).role p

def Inv (x : Writers) (p : StagingPath) : Prop :=
  FileInv (x.role p) (p ∈ x.tree) (x.tree.lines p) (x.appended p)

/-- No call checks for a file that another one is about to make, and none writes a row to a file
whose header is still due. -/
def Orderly (x : Writers) : WriterEvent → Prop
  | .append _ _ => True
  | .resume i => ∀ j, (x.call i).clashes (x.call j) = false

instance (x : Writers) : ∀ e, Decidable (x.Orderly e)
  | .append _ _ => isTrue trivial
  | .resume i =>
    decidable_of_iff ((x.call i).clashes (x.call .server) = false ∧
        (x.call i).clashes (x.call .survey) = false)
      ⟨fun h j => by cases j; exacts [h.1, h.2], fun h => ⟨h .server, h .survey⟩⟩

@[simp] theorem role_setCall (a : Appending) :
    (x.setCall i a).role p = Function.update (x.role p) i (a.role p) := by
  funext j
  by_cases hj : j = i
  · subst hj
    simp [role, setCall]
  · simp [role, setCall, hj]

theorem start_inv : (start ∅).Inv p := by
  have hmem : (p ∈ (∅ : StagingTree)) = False := eq_false (AList.notMem_empty p)
  rw [Inv, start, hmem]
  exact .none

/-- A call that keeps its role at a file leaves it in order. -/
theorem Inv.setCall (h : x.Inv p) {a : Appending} (ha : a.role p = x.role p i) :
    (x.setCall i a).Inv p := by
  rw [Inv, role_setCall, ha, Function.update_eq_self]
  exact h

theorem inv_write {a : Appending} {ls : List Line} {appended : StagingPath → List Row} :
    ({ x with tree := x.tree.appendLines p ls, appended }.setCall i a).Inv p ↔
      FileInv (Function.update (x.role p) i (a.role p)) True (x.tree.lines p ++ ls) (appended p) := by
  have hmem : (p ∈ x.tree.appendLines p ls) = True :=
    eq_true (StagingTree.mem_appendLines.mpr (Or.inl rfl))
  rw [Inv, role_setCall]
  simp only [setCall, hmem, StagingTree.lines_appendLines, if_true]
  rfl

/-- A write to another file leaves it in order. -/
theorem Inv.other {q : StagingPath} (h : x.Inv p) (hq : p ≠ q) {a : Appending}
    (ha : a.role p = x.role p i) (ls : List Line) {appended : StagingPath → List Row}
    (hrows : appended p = x.appended p) :
    ({ x with tree := x.tree.appendLines q ls, appended }.setCall i a).Inv p := by
  have hmem : p ∈ x.tree.appendLines q ls ↔ p ∈ x.tree :=
    StagingTree.mem_appendLines.trans (or_iff_right hq)
  have hrole : Function.update (x.role p) i (a.role p) = x.role p := by
    rw [ha, Function.update_eq_self]
  rw [Inv, role_setCall]
  simp only [Writers.setCall, hmem, StagingTree.lines_appendLines, if_neg hq, hrows]
  exact hrole.symm ▸ h

theorem resume_inv (h : x.Inv p) (hok : x.Orderly (.resume i)) : (x.resume i).Inv p := by
  have hrole : (x.call i).role p = x.role p i := rfl
  rw [resume]
  cases hcall : x.call i with
  | idle => exact h
  | next todo =>
    rw [hcall] at hrole
    cases todo with
    | nil => exact h.setCall hrole
    | cons file todo =>
      obtain ⟨q, group⟩ := file
      simp only [Orderly, hcall, Appending.clashes, decide_eq_false_iff_not] at hok
      by_cases hq : p = q
      · subst hq
        rw [Inv, role_setCall]
        by_cases hp : p ∈ x.tree
        · simp only [Appending.role, if_true, hp, not_true, decide_false, Bool.false_eq_true, if_false]
          exact FileInv.find h hrole.symm hp
        · simp only [Appending.role, if_true, hp, not_false_iff, decide_true]
          exact FileInv.claim h hok hp
      · exact h.setCall (by rw [← hrole, Appending.role, Appending.role, if_neg hq])
  | checked q newFile group todo =>
    rw [hcall] at hrole
    by_cases hq : p = q
    · subst hq
      rw [inv_write, List.append_nil]
      cases newFile with
      | true =>
        have hmaker : x.role p i = .maker := by simp [← hrole, Appending.role]
        simp only [if_true, Appending.role]
        refine FileInv.openNew h hmaker fun hp => ?_
        rw [StagingTree.lines, AList.lookup_eq_none.mpr hp, Option.getD_none]
      | false =>
        have hinside : x.role p i = .inside := by simp [← hrole, Appending.role]
        have hpresent : (p ∈ x.tree) = True := eq_true (h.there hinside)
        rw [Inv, hpresent] at h
        simp only [Bool.false_eq_true, if_false, if_true, Appending.role]
        rwa [← hinside, Function.update_eq_self]
    · refine h.other hq ?_ [] rfl
      rw [← hrole]
      cases newFile <;> simp [Appending.role, hq]
  | header q group todo =>
    rw [hcall] at hrole
    by_cases hq : p = q
    · subst hq
      have hdue : x.role p i = .heading := by simp [← hrole, Appending.role]
      rw [inv_write, Appending.role, if_pos rfl]
      exact FileInv.writeHeader h hdue
    · exact h.other hq (by simp [← hrole, Appending.role, hq]) _ rfl
  | rows q group todo =>
    rw [hcall] at hrole
    cases group with
    | nil =>
      by_cases hq : p = q
      · subst hq
        have hinside : x.role p i = .inside := by simp [← hrole, Appending.role]
        rw [Inv, role_setCall]
        exact FileInv.leave h hinside
      · exact h.setCall (by simp [← hrole, Appending.role, hq])
    | cons r group =>
      simp only [Orderly, hcall, Appending.clashes, decide_eq_false_iff_not] at hok
      by_cases hq : p = q
      · subst hq
        have hinside : x.role p i = .inside := by simp [← hrole, Appending.role]
        rw [inv_write, Appending.role, if_pos rfl, ← hinside, Function.update_eq_self,
          Function.update_self]
        exact FileInv.writeRow h hinside hok r
      · exact h.other hq (by simp [← hrole, Appending.role, hq]) _ (Function.update_of_ne hq ..)

theorem step_inv (h : x.Inv p) {e : WriterEvent} (hok : x.Orderly e) : (x.step rt e).Inv p := by
  cases e with
  | resume i => exact resume_inv h hok
  | append i batch =>
    rw [step, append]
    split
    · next hcall _ =>
      refine Inv.setCall (x := { x with asked := _ }) h ?_
      change _ = (x.call i).role p
      rw [hcall]
      rfl
    · exact h

/-- The rows of a file are written or still to be written. -/
def Conserves (x : Writers) (p : StagingPath) : Prop :=
  (x.appended p ++ ((x.call .server).left p ++ (x.call .survey).left p)).Perm (x.asked p)

theorem Conserves.setCall (h : x.Conserves p) {a : Appending} (ha : a.left p = (x.call i).left p)
    {tree : StagingTree} {appended : StagingPath → List Row} (hrows : appended p = x.appended p) :
    ({ x with tree, appended }.setCall i a).Conserves p := by
  cases i with
  | server => simpa [Conserves, Writers.setCall, ha, hrows] using h
  | survey => simpa [Conserves, Writers.setCall, ha, hrows] using h

theorem Conserves.write (h : x.Conserves p) {r : Row} {a : Appending}
    (ha : (x.call i).left p = r :: a.left p) {tree : StagingTree} :
    ({ x with tree, appended := Function.update x.appended p (x.appended p ++ [r]) }.setCall i
      a).Conserves p := by
  refine List.Perm.trans ?_ h
  cases i with
  | server => simp [Writers.setCall, ha]
  | survey =>
    simp only [Writers.setCall, Function.update_self, ha, List.append_assoc, List.singleton_append]
    exact List.perm_middle.symm.append_left _

theorem resume_conserves (h : x.Conserves p) : (x.resume i).Conserves p := by
  rw [resume]
  cases hcall : x.call i with
  | idle => exact h
  | next todo =>
    cases todo with
    | nil => exact h.setCall (by rw [hcall]; rfl) rfl
    | cons file todo => exact h.setCall (by rw [hcall]; rfl) rfl
  | checked q newFile group todo =>
    refine h.setCall ?_ rfl
    rw [hcall]
    cases newFile <;> rfl
  | header q group todo => exact h.setCall (by rw [hcall]; rfl) rfl
  | rows q group todo =>
    cases group with
    | nil =>
      refine h.setCall ?_ rfl
      simp [hcall, Appending.left, Appending.groupsAt]
    | cons r group =>
      by_cases hq : p = q
      · subst hq
        refine h.write ?_
        simp [hcall, Appending.left, Appending.groupsAt]
      · refine h.setCall ?_ (Function.update_of_ne hq ..)
        simp [hcall, Appending.left, Appending.groupsAt, hq]

theorem step_conserves (h : x.Conserves p) (e : WriterEvent) : (x.step rt e).Conserves p := by
  cases e with
  | resume i => exact resume_conserves h
  | append i batch =>
    rw [step, append]
    split
    · next todo hcall htodo =>
      have hleft : (Appending.next todo).left p =
          (project batch).filter (pathOf rt · = some p) := Appending.groupsAt_buckets htodo p
      have hidle : (x.call i).left p = [] := by rw [hcall]; rfl
      have hnew := h.append_right ((project batch).filter (pathOf rt · = some p))
      refine List.Perm.trans ?_ hnew
      cases i with
      | server =>
        simp only [Writers.setCall, Function.update_self, hleft, hidle, List.nil_append,
          List.append_assoc]
        exact List.perm_append_comm.append_left _
      | survey => simp [Writers.setCall, hleft, hidle]
    · exact h

/-- The rows the calls are for are projections. -/
def Projected (x : Writers) : Prop :=
  ∀ p, ∀ r ∈ x.asked p, ∃ row node, projectElectrical row node = r

theorem step_projected (h : x.Projected) (e : WriterEvent) : (x.step rt e).Projected := by
  cases e with
  | resume i =>
    have hasked : (x.resume i).asked = x.asked := by
      simp only [resume]
      split <;> rfl
    intro p r hr
    exact h p r (hasked ▸ hr)
  | append i batch =>
    rw [step, append]
    split
    · intro p r hr
      rcases List.mem_append.mp hr with hr | hr
      · exact h p r hr
      · obtain ⟨⟨row, node⟩, -, hrow⟩ := List.mem_map.mp (List.mem_filter.mp hr).1
        exact ⟨row, node, hrow⟩
    · exact h

section Alone

/-- The call of a process takes steps while the other takes none. -/
abbrev Alone (i : Writer) : Writers → Writers → Prop := Relation.ReflTransGen fun x y => y = x.resume i

theorem appendLines_appendLines (tree : StagingTree) (p : StagingPath) (ls ls' : List Line) :
    (tree.appendLines p ls).appendLines p ls' = tree.appendLines p (ls ++ ls') := by
  rw [StagingTree.appendLines, StagingTree.lines_appendLines, if_pos rfl, StagingTree.appendLines,
    Table.replaceRow_replaceRow, List.append_assoc, StagingTree.appendLines]

theorem rows_alone {tree : StagingTree} {group : List Row} {todo : List (StagingPath × List Row)}
    {ls : List Line} (hcall : x.call i = .rows p group todo) (htree : x.tree = tree.appendLines p ls) :
    ∃ y, Alone i x y ∧ y.call i = .next todo ∧
      y.tree = tree.appendLines p (ls ++ group.map (StagingWriter.csvLine electricalCsvColumns)) := by
  induction group generalizing x ls with
  | nil =>
    refine ⟨x.resume i, .single rfl, ?_, ?_⟩
    · simp [resume, hcall, setCall]
    · simp [resume, hcall, setCall, htree]
  | cons r group ih =>
    have hrest : (x.resume i).call i = .rows p group todo := by simp [resume, hcall, setCall]
    have hwritten : (x.resume i).tree =
        tree.appendLines p (ls ++ [StagingWriter.csvLine electricalCsvColumns r]) := by
      simp only [resume, hcall, setCall, htree, appendLines_appendLines]
    obtain ⟨y, hy, hnext, htree'⟩ := ih hrest hwritten
    refine ⟨y, .head rfl hy, hnext, ?_⟩
    rw [htree', List.append_assoc, List.singleton_append, List.map_cons]

theorem bucket_alone {group : List Row} {todo : List (StagingPath × List Row)}
    (hcall : x.call i = .next ((p, group) :: todo)) :
    ∃ y, Alone i x y ∧ y.call i = .next todo ∧
      y.tree = x.tree.appendLines p (StagingWriter.output electricalCsvColumns x.tree p group) := by
  have hchecked : (x.resume i).call i = .checked p (decide (p ∉ x.tree)) group todo := by
    simp [resume, hcall, setCall]
  have htree : (x.resume i).tree = x.tree := by simp [resume, hcall, setCall]
  have hopened : ((x.resume i).resume i).tree = x.tree.appendLines p [] := by
    rw [resume, hchecked]
    simp [setCall, htree]
  by_cases hp : p ∈ x.tree
  · have hrows : ((x.resume i).resume i).call i = .rows p group todo := by
      rw [resume, hchecked]
      simp [setCall, hp]
    obtain ⟨y, hy, hnext, htree'⟩ := rows_alone hrows hopened
    refine ⟨y, .head rfl (.head rfl hy), hnext, ?_⟩
    rw [htree', StagingWriter.output, if_pos hp, List.nil_append]
  · have hheader : ((x.resume i).resume i).call i = .header p group todo := by
      rw [resume, hchecked]
      simp [setCall, hp]
    have hrows : (((x.resume i).resume i).resume i).call i = .rows p group todo := by
      rw [resume, hheader]
      simp [setCall]
    have hheaded : (((x.resume i).resume i).resume i).tree =
        x.tree.appendLines p ([] ++ [StagingWriter.header electricalCsvColumns]) := by
      rw [resume, hheader]
      simp only [setCall, hopened, appendLines_appendLines]
    obtain ⟨y, hy, hnext, htree'⟩ := rows_alone hrows hheaded
    refine ⟨y, .head rfl (.head rfl (.head rfl hy)), hnext, ?_⟩
    rw [htree', StagingWriter.output, if_neg hp, List.nil_append, List.singleton_append]

theorem todo_alone {todo : List (StagingPath × List Row)} (hcall : x.call i = .next todo) :
    ∃ y, Alone i x y ∧ y.call i = .idle ∧
      y.tree = (StagingWriter.appendBuckets electricalCsvColumns x.tree none todo).1 := by
  induction todo generalizing x with
  | nil =>
    refine ⟨x.resume i, .single rfl, ?_, ?_⟩
    · simp [resume, hcall, setCall]
    · simp [resume, hcall, setCall, StagingWriter.appendBuckets]
  | cons bucket todo ih =>
    obtain ⟨p, group⟩ := bucket
    obtain ⟨z, hz, hnext, htree⟩ := bucket_alone hcall
    obtain ⟨y, hy, hidle, htree'⟩ := ih hnext
    refine ⟨y, hz.trans hy, hidle, ?_⟩
    rw [htree', htree, StagingWriter.appendBuckets]

/-- A call whose steps are not interrupted is `_append`. -/
theorem append_alone (rt : Runtime) (rows : List Row) (hidle : x.call i = .idle) :
    ∃ y, Alone i (x.append i rt rows) y ∧ y.call i = .idle ∧
      y.tree = (StagingWriter.append rt .electrical electricalCsvColumns "ts_utc" none x.tree rows).1 := by
  cases hpaths : StagingWriter.paths rt .electrical "ts_utc" rows with
  | none =>
    refine ⟨x, ?_, hidle, ?_⟩
    · simp only [append, hidle, buckets, hpaths, Option.map_none]
      exact .refl
    · simp only [StagingWriter.append, hpaths]
  | some located =>
    have hcall : (x.append i rt rows).call i = .next
        (Bucket.mapGroups (·.map (·.2)) (Bucket.bucket (·.1) located)) := by
      simp [append, hidle, buckets, hpaths, setCall]
    have htree : (x.append i rt rows).tree = x.tree := by
      simp [append, hidle, buckets, hpaths, setCall]
    obtain ⟨y, hy, hdone, htree'⟩ := todo_alone hcall
    refine ⟨y, hy, hdone, ?_⟩
    rw [htree', htree]
    simp only [StagingWriter.append, hpaths]

end Alone

end Writers

end GridWitness.Server

namespace GridWitness.Acquirer

open Library Server

theorem csvLine_ne_electrical_header (row : ElectricalRow) (node : Node) :
    Kind.electrical.csvLine (projectElectrical row node) ≠ Kind.electrical.header := by
  refine Kind.csvLine_ne_header fun text => ?_
  cases hv : row.voltageV <;> simp [projectElectrical, Row.get, Kind.someChannel, Channel.name,
    List.lookup_cons, Cell.ofFloat, hv]

/-- In an orderly run of two writers every file has one header, at its start, and reads back as the
rows that were appended to it; before the writer that makes it has written the header it is empty. -/
theorem shared_tree_reads_back (rt : Runtime) (host : Host) (events : List WriterEvent)
    (h : Trace.Along (Writers.step rt) Writers.Orderly (.start ∅) events) (p : StagingPath) :
    let x := events.foldl (Writers.step rt) (.start ∅)
    (p ∈ x.tree → (∀ i, x.role p i ≠ .heading) →
      ∃ ls, x.tree.lines p = Kind.electrical.header :: ls ∧ Kind.electrical.header ∉ ls ∧
        dictRows host (x.tree.lines p) = (x.appended p).map (stagedRow host .electrical)) ∧
    ((∃ i, x.role p i = .heading) → x.tree.lines p = [] ∧ x.appended p = []) ∧
    ((∀ i, x.call i = .idle) → (x.appended p).Perm (x.asked p)) := by
  intro x
  have hinv : x.Inv p :=
    h.invariant (I := fun x => x.Inv p) (fun _ _ hs hok => Writers.step_inv hs hok) Writers.start_inv
  have hconserves : x.Conserves p :=
    Trace.foldl_invariant (I := fun x : Writers => x.Conserves p)
      (fun _ e h => Writers.step_conserves h e) (List.Perm.refl _ : (Writers.start ∅).Conserves p)
      events
  have hprojected : x.Projected :=
    Trace.foldl_invariant (I := Writers.Projected) (fun _ e h => Writers.step_projected h e)
      (fun _ _ h => absurd h List.not_mem_nil : (Writers.start ∅).Projected) events
  refine ⟨fun hp hnone => ?_, fun ⟨i, hi⟩ => (hinv.due i hi).2, fun hidle => ?_⟩
  · have hlines := hinv.made hp hnone
    refine ⟨_, hlines, fun hmem => ?_, ?_⟩
    · obtain ⟨r, hr, hline⟩ := List.mem_map.mp hmem
      obtain ⟨row, node, rfl⟩ := hprojected p r (hconserves.subset (List.mem_append_left _ hr))
      exact csvLine_ne_electrical_header row node hline
    · rw [hlines, dictRows, List.map_map]
      rfl
  · rw [Writers.Conserves, hidle, hidle] at hconserves
    simpa [Appending.left] using hconserves

/-- A row of each process, for the same hour of one node. -/
def mainsAt (tsUtc : String) : List (ElectricalRow × Node) :=
  [(.mains tsUtc,
    { nodeId := "n1", createdUtc := "2026-07-10T08:00:00Z", deviceType := "meter", firmware := none,
      cadenceMs := none, locTier := .anon, locRef := none, cellId := none,
      channels := [.frequencyHz], producer := none, deletedUtc := none })]

def nineHour : StagingPath := ⟨.electrical, "2026-07-10", "09"⟩

/-- The two calls, each in six effects. -/
def inTurn : List WriterEvent :=
  .append .server (mainsAt "2026-07-10T09:00:00Z") :: List.replicate 6 (.resume .server) ++
    .append .survey (mainsAt "2026-07-10T09:00:01Z") :: List.replicate 6 (.resume .survey)

theorem shared_tree_reads_back_inTurn :
    let x := inTurn.foldl (Writers.step .ascii) (.start ∅)
    (nineHour ∈ x.tree → (∀ i, x.role nineHour i ≠ .heading) →
      ∃ ls, x.tree.lines nineHour = Kind.electrical.header :: ls ∧
        Kind.electrical.header ∉ ls ∧
        dictRows .july (x.tree.lines nineHour) =
          (x.appended nineHour).map (stagedRow .july .electrical)) ∧
    ((∃ i, x.role nineHour i = .heading) →
      x.tree.lines nineHour = [] ∧ x.appended nineHour = []) ∧
    ((∀ i, x.call i = .idle) → (x.appended nineHour).Perm (x.asked nineHour)) :=
  shared_tree_reads_back .ascii .july inTurn (by decide +kernel) nineHour

/-- Both calls look for the file before either has made it. -/
def bothFirst : List WriterEvent :=
  [.append .server (mainsAt "2026-07-10T09:00:00Z"), .append .survey (mainsAt "2026-07-10T09:00:01Z"),
    .resume .server, .resume .survey] ++
    List.replicate 5 (.resume .server) ++ List.replicate 5 (.resume .survey)

theorem header_written_twice :
    ¬ ∀ (rt : Runtime) (events : List WriterEvent) (p : StagingPath),
      let x := events.foldl (Writers.step rt) (.start ∅)
      (∀ i, x.call i = .idle) → p ∈ x.tree → (x.tree.lines p).count Kind.electrical.header = 1 := by
  intro h
  have hcount := h .ascii bothFirst nineHour (fun i => by cases i <;> rfl) (by decide +kernel)
  revert hcount
  decide +kernel

end GridWitness.Acquirer
