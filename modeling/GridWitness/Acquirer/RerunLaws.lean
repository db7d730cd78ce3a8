import GridWitness.Acquirer.HorizonLaws
import GridWitness.Acquirer.ValueLaws

namespace GridWitness.Acquirer

open Library Server Keyed

/-- A call of `write_dataset`, with the files it can read. -/
structure WriteCall where
  kind : Kind
  readable : Partition → Bool
  df : List FrameRow

def WriteCall.apply (host : Host) (lake : Lake) (c : WriteCall) : Lake :=
  (writeDataset host c.kind c.readable lake c.df).1

/-- Every file holds at most one row per key. -/
def UniqueLake (lake : Lake) : Prop :=
  ∀ p rows, lake.lookup p = some rows → UniqueKeys (·.key p.1) rows

/-- The weeks of a payload that have no file yet repeat no key. -/
def WriteCall.FirstUnique (host : Host) (lake : Lake) (c : WriteCall) : Prop :=
  ∀ w, lake.lookup (c.kind, w) = none → UniqueKeys (·.key c.kind) (c.df.filter (host.week ·.ts = w))

variable {host : Host} {lake : Lake} {c : WriteCall}

theorem uniqueKeys_sortByKey {kind : Kind} {rows : List FrameRow} :
    UniqueKeys (·.key kind) (sortByKey kind rows) ↔ UniqueKeys (·.key kind) rows :=
  ⟨fun h => h.perm (sortByKey_perm kind rows), fun h => h.perm (sortByKey_perm kind rows).symm⟩

theorem filter_week_nil {df : List FrameRow} {w : Nat × Nat} (hw : w ∉ weeks host df) :
    df.filter (host.week ·.ts = w) = [] := by
  rw [List.filter_eq_nil_iff]
  intro r hr hweek
  exact hw (mem_weeks.mpr ⟨r, hr, by simpa using hweek⟩)

/-- A call keeps the keys of the lake unique exactly when it repeats none in a file it creates. -/
theorem apply_unique (h : UniqueLake lake) :
    UniqueLake (c.apply host lake) ↔ c.FirstUnique host lake := by
  constructor
  · intro hafter w hnone
    by_cases hw : w ∈ weeks host c.df
    · have hrows := hafter (c.kind, w)
      rw [WriteCall.apply, lookup_writeDataset, if_pos ⟨rfl, hw⟩, hnone] at hrows
      exact uniqueKeys_sortByKey.mp (hrows _ rfl)
    · rw [filter_week_nil hw]
      exact List.nodup_nil
  · rintro hfirst ⟨kind, w⟩ rows hrows
    rw [WriteCall.apply, lookup_writeDataset] at hrows
    split at hrows
    · next hp =>
      obtain ⟨rfl, -⟩ := hp
      cases hrows
      cases hprev : lake.lookup (c.kind, w) with
      | none => exact uniqueKeys_sortByKey.mpr (hfirst w hprev)
      | some prev =>
        rw [landed]
        split
        · exact uniqueKeys_sortByKey.mpr (merge_unique c.kind _ prev)
        · exact h _ prev hprev
    · exact h _ rows hrows

theorem fill_self {kind : Kind} {n : FrameRow} (h : Shaped kind n) : fill n n = n := by
  obtain ⟨ts, values⟩ := n
  simp only [fill, FrameRow.mk.injEq, true_and]
  simp only [Shaped] at h
  rw [h, List.map_map]
  apply List.map_congr_left
  intro c _
  rw [← h, Function.comp_apply, ite_self]

/-- Landing a payload a second time changes its file exactly when the payload repeats a key. -/
theorem merge_again {kind : Kind} {payload : List FrameRow}
    (hshape : ∀ r ∈ payload, Shaped kind r) :
    sortByKey kind (merge kind payload (sortByKey kind payload)) = sortByKey kind payload ↔
      UniqueKeys (·.key kind) payload := by
  constructor
  · intro h
    rw [← uniqueKeys_sortByKey, ← h, uniqueKeys_sortByKey]
    exact merge_unique kind _ _
  · intro h
    have hsorted := uniqueKeys_sortByKey.mpr h
    have hfill : payload.map (fillFrom kind (sortByKey kind payload)) = payload := by
      have hself : ∀ n ∈ payload, fillFrom kind (sortByKey kind payload) n = id n := by
        intro n hn
        rw [fillFrom_eq, hsorted.rowAt.mpr ⟨(sortByKey_perm kind payload).mem_iff.mpr hn, rfl⟩]
        exact fill_self (hshape n hn)
      rw [List.map_congr_left hself, List.map_id]
    have hrest : (sortByKey kind payload).filter
        (fun o => !payload.any (·.key kind = o.key kind)) = [] := by
      rw [List.filter_eq_nil_iff]
      intro o ho hnone
      rw [Bool.not_eq_true', List.any_eq_false] at hnone
      exact hnone o ((sortByKey_perm kind payload).mem_iff.mp ho) (by simp)
    rw [merge, keepLast_eq, keepLast_eq, h.keepLast, hsorted.keepLast, combineFirst, hfill, hrest,
      List.map_nil, List.append_nil]

/-- The rows a first run over a tree lands. -/
def landable (host : Host) (cutoff : Option Instant) (tree : StagingTree) (kind : Kind) :
    List FrameRow :=
  clampHorizon cutoff (frame host kind (Staged host tree kind))

theorem clampHorizon_sublist (cutoff : Option Instant) (df : List FrameRow) :
    (clampHorizon cutoff df).Sublist df := by
  cases cutoff with
  | none => exact .refl df
  | some c => exact List.filter_sublist

/-- A second run over the same tree, with the cursor reset, changes no file exactly when no key
was staged twice. -/
theorem rerun_unchanged (host : Host) (cutoff : Option Instant) (tree : StagingTree) :
    let first := (run host (fun _ => true) cutoff tree {}).1
    let again := (run host (fun _ => true) cutoff tree { lake := first.lake }).1
    (∀ p, again.lake.lookup p = first.lake.lookup p) ↔
      ∀ kind, UniqueKeys (·.key kind) (landable host cutoff tree kind) := by
  intro first again
  have hfirst : ∀ p : Partition, first.lake.lookup p =
      if p.2 ∈ weeks host (landable host cutoff tree p.1) then
        some (sortByKey p.1 ((landable host cutoff tree p.1).filter (host.week ·.ts = p.2)))
      else none := fun p => lookup_run {} p
  have hagain : ∀ p : Partition, again.lake.lookup p =
      if p.2 ∈ weeks host (landable host cutoff tree p.1) then
        some (landed p.1 true ((landable host cutoff tree p.1).filter (host.week ·.ts = p.2))
          (first.lake.lookup p))
      else first.lake.lookup p := fun p => lookup_run { lake := first.lake } p
  have hshape : ∀ kind w, ∀ r ∈ (landable host cutoff tree kind).filter (host.week ·.ts = w),
      Shaped kind r := fun kind w r hr =>
    frame_shaped ((clampHorizon_sublist cutoff _).subset (List.mem_filter.mp hr).1)
  have hpartition : ∀ kind w, again.lake.lookup (kind, w) = first.lake.lookup (kind, w) ↔
      UniqueKeys (·.key kind) ((landable host cutoff tree kind).filter (host.week ·.ts = w)) := by
    intro kind w
    rw [hagain, hfirst]
    dsimp only
    by_cases hw : w ∈ weeks host (landable host cutoff tree kind)
    · rw [if_pos hw, if_pos hw, landed, if_pos rfl, Option.some.injEq]
      exact merge_again (hshape kind w)
    · rw [if_neg hw, if_neg hw, filter_week_nil hw]
      exact iff_of_true rfl List.nodup_nil
  constructor
  · intro h kind
    have hgroup : ∀ a b : FrameRow, a.key kind = b.key kind → host.week a.ts = host.week b.ts := by
      intro a b hkey
      rw [show a.ts = b.ts from congrArg Prod.fst hkey]
    exact uniqueKeys_of_groups hgroup fun r _ => (hpartition kind _).mp (h _)
  · rintro h ⟨kind, w⟩
    exact (hpartition kind w).mpr ((h kind).sublist List.filter_sublist)

/-- The keys of the lake stay unique over a sequence of writes exactly when no write repeats a key
in a file it creates; and a run repeated over the same staging changes nothing exactly when no key
was staged twice. -/
theorem lake_unique_iff (host : Host) (calls : List WriteCall) (cutoff : Option Instant)
    (tree : StagingTree) :
    (Trace.Along (WriteCall.apply host) (fun lake c => UniqueLake (c.apply host lake)) ∅ calls ↔
      Trace.Along (WriteCall.apply host) (fun lake c => c.FirstUnique host lake) ∅ calls) ∧
    let first := (run host (fun _ => true) cutoff tree {}).1
    let again := (run host (fun _ => true) cutoff tree { lake := first.lake }).1
    (∀ p, again.lake.lookup p = first.lake.lookup p) ↔
      ∀ kind, UniqueKeys (·.key kind) (landable host cutoff tree kind) := by
  refine ⟨Trace.Along.iff_each (fun lake c h => apply_unique h) ?_, rerun_unchanged host cutoff tree⟩
  intro p rows hrows
  simp at hrows

/-- One payload with the same key twice, for a week without a file. -/
def twiceNine : WriteCall where
  kind := .electrical
  readable _ := true
  df := frame .july .electrical
    [nineRow "2026-07-10T09:00:00Z" "230" "50", nineRow "2026-07-10T09:00:00Z" "" "50"]

theorem first_write_repeats :
    ¬ ∀ (host : Host) (calls : List WriteCall),
      Trace.Along (WriteCall.apply host) (fun lake c => UniqueLake (c.apply host lake)) ∅ calls := by
  intro h
  have hunique := (h .july [twiceNine]).1 (.electrical, 2026, 28)
  have hrows : ∃ rows, (twiceNine.apply .july ∅).lookup (.electrical, 2026, 28) = some rows ∧
      ¬ (rows.map (·.key .electrical)).Nodup := by
    refine ⟨((twiceNine.apply .july ∅).lookup (.electrical, 2026, 28)).getD [], ?_, ?_⟩ <;>
      decide +kernel
  obtain ⟨rows, hrows, hrepeat⟩ := hrows
  exact hrepeat (hunique rows hrows)

end GridWitness.Acquirer
