import GridWitness.Acquirer.RerunLaws

namespace GridWitness.Acquirer

open Library Server

section Land

variable {host : Host} {kind : Kind} {lake : Lake} {df payload prev : List FrameRow}

theorem cellsLe_refl (cs : List Cell) : cellsLe cs cs := by
  induction cs with
  | nil => rfl
  | cons c cs ih => cases c <;> simp [cellsLe, ih]

theorem keyLe_refl (k : Key) : keyLe k k := by simp [keyLe, cellsLe_refl]

/-- The sort keeps rows of one key in their order. -/
theorem filter_sortByKey (rows : List FrameRow) (k : Key) :
    (sortByKey kind rows).filter (·.key kind = k) = rows.filter (·.key kind = k) := by
  have hinsert : ∀ (r : FrameRow) (rows : List FrameRow),
      (rows.orderedInsert (fun a b => keyLe (a.key kind) (b.key kind)) r).filter (·.key kind = k) =
        (r :: rows).filter (·.key kind = k) := by
    intro r rows
    induction rows with
    | nil => rfl
    | cons b rows ih =>
      rw [List.orderedInsert_cons]
      split
      · rfl
      · next hle =>
        rw [List.filter_cons, ih]
        by_cases hr : r.key kind = k
        · have hb : b.key kind ≠ k := by
            rintro rfl
            exact hle (by rw [hr]; exact keyLe_refl _)
          simp [hr, hb]
        · simp [hr, List.filter_cons]
  induction rows with
  | nil => rfl
  | cons r rows ih =>
    rw [sortByKey, List.insertionSort_cons, hinsert, List.filter_cons, List.filter_cons]
    rw [sortByKey] at ih
    rw [ih]

theorem restrict_self {r : FrameRow} (h : Shaped kind r) : restrict kind r = r := by
  obtain ⟨ts, values⟩ := r
  exact congrArg (FrameRow.mk ts) h.symm

theorem restrict_shaped (r : FrameRow) : Shaped kind (restrict kind r) := by
  simp only [Shaped]
  refine List.map_congr_left fun c hc => ?_
  rw [get_restrict hc]

theorem fill_shaped {n : FrameRow} (h : Shaped kind n) (o : FrameRow) : Shaped kind (fill n o) := by
  have hvalues : (fill n o).values = (columns kind).map fun c =>
      (c, if n.values.get c = .null then o.values.get c else n.values.get c) := by
    rw [fill, h, List.map_map, ← h]
    rfl
  rw [Shaped, hvalues]
  refine List.map_congr_left fun c hc => ?_
  rw [get_columns, if_pos hc]

theorem merge_shaped (h : ∀ r ∈ payload, Shaped kind r) {r : FrameRow}
    (hr : r ∈ merge kind payload prev) : Shaped kind r := by
  rcases List.mem_append.mp hr with hr | hr
  · obtain ⟨n, hn, rfl⟩ := List.mem_map.mp hr
    rw [keepLast_eq] at hn
    have hshape := h n ((Keyed.keepLast_sublist payload).subset hn)
    rw [fillFrom_eq]
    cases Keyed.rowAt (·.key kind) (keepLast kind prev) (n.key kind) with
    | none => exact hshape
    | some o => exact fill_shaped hshape o
  · obtain ⟨o, -, rfl⟩ := List.mem_map.mp hr
    exact restrict_shaped o

/-- The row a merge leaves for a key, from the last new and the last old one. -/
def mergedRow (kind : Kind) : Option FrameRow → Option FrameRow → Option FrameRow
  | none, old => old.map (restrict kind)
  | some new, old => some (old.elim new (fill new))

theorem filter_merge (k : Key) :
    (merge kind payload prev).filter (·.key kind = k) =
      (mergedRow kind (payload.filter (·.key kind = k)).getLast?
        (prev.filter (·.key kind = k)).getLast?).toList := by
  rw [(merge_unique kind payload prev).filter_eq, merge, keepLast_eq, keepLast_eq,
    rowAt_combineFirst (Keyed.keepLast_unique payload) (Keyed.keepLast_unique prev),
    Keyed.rowAt_keepLast, Keyed.rowAt_keepLast]
  cases (payload.filter (·.key kind = k)).getLast? <;> rfl

/-- The rows in the file of a partition. -/
def rowsOf (lake : Lake) (p : Partition) : List FrameRow := (lake.lookup p).getD []

/-- A landing finds a file for a week it has rows of. -/
def Merges (host : Host) (kind : Kind) (lake : Lake) (df : List FrameRow) (w : Nat × Nat) : Prop :=
  w ∈ weeks host df ∧ (kind, w) ∈ lake

instance {w : Nat × Nat} : Decidable (Merges host kind lake df w) :=
  inferInstanceAs (Decidable (_ ∧ _))

/-- What a readable lake holds after a landing. -/
def land (host : Host) (kind : Kind) (lake : Lake) (df : List FrameRow) : Lake :=
  (writeDataset host kind (fun _ => true) lake df).1

theorem rowsOf_merges {w : Nat × Nat} (h : Merges host kind lake df w) :
    rowsOf (land host kind lake df) (kind, w) = sortByKey kind
      (merge kind (df.filter (host.week ·.ts = w)) (rowsOf lake (kind, w))) := by
  obtain ⟨prev, hprev⟩ := Option.isSome_iff_exists.mp (AList.lookup_isSome.mpr h.2)
  rw [rowsOf, land, lookup_writeDataset, if_pos ⟨rfl, h.1⟩, hprev, rowsOf, hprev]
  rfl

/-- What a landing leaves of a key in a week. -/
theorem filter_land (w : Nat × Nat) (k : Key) :
    let new := (df.filter (host.week ·.ts = w)).filter (·.key kind = k)
    let old := (rowsOf lake (kind, w)).filter (·.key kind = k)
    let rows := (rowsOf (land host kind lake df) (kind, w)).filter (·.key kind = k)
    (Merges host kind lake df w → rows = (mergedRow kind new.getLast? old.getLast?).toList) ∧
      (¬ Merges host kind lake df w → rows = new ++ old ∧ (new = [] ∨ old = [])) := by
  intro new old rows
  refine ⟨fun h => ?_, fun h => ?_⟩
  · simp only [rows, rowsOf_merges h, filter_sortByKey, filter_merge]
    rfl
  · by_cases hw : w ∈ weeks host df
    · have hnone : lake.lookup (kind, w) = none := AList.lookup_eq_none.mpr fun hmem => h ⟨hw, hmem⟩
      have hold : old = [] := by simp only [old, rowsOf, hnone]; rfl
      refine ⟨?_, Or.inr hold⟩
      simp only [rows, rowsOf, land, lookup_writeDataset, hw, and_self, if_true, hnone, landed,
        Option.getD_some, filter_sortByKey, hold, List.append_nil]
      rfl
    · have hnew : new = [] := by simp only [new, filter_week_nil hw]; rfl
      refine ⟨?_, Or.inl hnew⟩
      simp only [rows, rowsOf, land, lookup_writeDataset, hw, and_false, if_false, hnew,
        List.nil_append]
      rfl

theorem rowsOf_land_ne {p : Partition} (h : p.1 ≠ kind) :
    rowsOf (land host kind lake df) p = rowsOf lake p := by
  rw [rowsOf, land, lookup_writeDataset, if_neg fun hp => h hp.1, rowsOf]

theorem land_shaped (hlake : ∀ p, ∀ r ∈ rowsOf lake p, Shaped p.1 r)
    (hdf : ∀ r ∈ df, Shaped kind r) :
    ∀ p, ∀ r ∈ rowsOf (land host kind lake df) p, Shaped p.1 r := by
  rintro ⟨kind', w⟩ r hr
  by_cases hkind : kind' = kind
  · subst hkind
    have hrow : r ∈ (rowsOf (land host kind' lake df) (kind', w)).filter (·.key kind' = r.key kind') :=
      List.mem_filter.mpr ⟨hr, by simp⟩
    have hweek : ∀ r ∈ df.filter (host.week ·.ts = w), Shaped kind' r := fun r hr =>
      hdf r (List.mem_filter.mp hr).1
    obtain ⟨hmerge, hkeep⟩ := @filter_land host kind' lake df w (r.key kind')
    by_cases h : Merges host kind' lake df w
    · rw [rowsOf_merges h] at hr
      exact merge_shaped hweek ((sortByKey_perm kind' _).mem_iff.mp hr)
    · rw [(hkeep h).1] at hrow
      rcases List.mem_append.mp hrow with hrow | hrow
      · exact hweek r (List.mem_filter.mp hrow).1
      · exact hlake _ r (List.mem_filter.mp hrow).1
  · rw [rowsOf_land_ne hkind] at hr
    exact hlake _ r hr

end Land

section Others

variable {host : Host} {kind : Kind} {node : String}

/-- A row of any node but one. -/
def notOf (node : String) (r : Row) : Bool := r.get "node_id" ≠ .text node

/-- The rows of every other node. -/
def others (node : String) (rows : List FrameRow) : List FrameRow :=
  rows.filter (notOf node ·.values)

/-- The key of a row of another node. -/
def Key.notOf (node : String) (k : Key) : Bool := k.2.head? ≠ some (.text node)

theorem key_notOf (r : FrameRow) : (r.key kind).notOf node = notOf node r.values := by
  cases kind <;> simp [Key.notOf, notOf, FrameRow.key, keyColumns]

theorem filter_others (rows : List FrameRow) (k : Key) :
    (others node rows).filter (·.key kind = k) =
      if k.notOf node then rows.filter (·.key kind = k) else [] := by
  rw [others, List.filter_filter]
  split
  · next h =>
    refine List.filter_congr fun r _ => ?_
    by_cases hkey : r.key kind = k
    · rw [← hkey, key_notOf] at h
      simp [hkey, h]
    · simp [hkey]
  · next h =>
    rw [List.filter_eq_nil_iff]
    intro r _ hr
    rw [Bool.and_eq_true, decide_eq_true_eq] at hr
    exact h (by rw [← hr.1, key_notOf]; exact hr.2)

theorem others_week (df : List FrameRow) (w : Nat × Nat) :
    others node (df.filter (host.week ·.ts = w)) = (others node df).filter (host.week ·.ts = w) :=
  List.filter_comm _ _ df

/-- Two lakes agree, file by file, on the rows of every other node. -/
def OthersAgree (node : String) (lake lake' : Lake) : Prop :=
  ∀ p, Keyed.Agree (·.key p.1) (others node (rowsOf lake p)) (others node (rowsOf lake' p))

/-- Two landings merge the same weeks, but where the keys of every other node are distinct. -/
def MergesAlike (host : Host) (node : String) (kind : Kind) (lake lake' : Lake)
    (df df' : List FrameRow) : Prop :=
  ∀ w ∈ weeks host df ++ weeks host df', (Merges host kind lake df w ↔ Merges host kind lake' df' w) ∨
    Keyed.UniqueKeys (·.key kind) (others node (df.filter (host.week ·.ts = w))) ∧
      Keyed.UniqueKeys (·.key kind) (others node (rowsOf lake (kind, w)))

instance {lake lake' : Lake} {df df' : List FrameRow} :
    Decidable (MergesAlike host node kind lake lake' df df') :=
  inferInstanceAs (Decidable (∀ w ∈ _, _))

theorem MergesAlike.week {lake lake' : Lake} {df df' : List FrameRow}
    (h : MergesAlike host node kind lake lake' df df') (w : Nat × Nat) :
    (Merges host kind lake df w ↔ Merges host kind lake' df' w) ∨
      Keyed.UniqueKeys (·.key kind) (others node (df.filter (host.week ·.ts = w))) ∧
        Keyed.UniqueKeys (·.key kind) (others node (rowsOf lake (kind, w))) := by
  by_cases hw : w ∈ weeks host df ++ weeks host df'
  · exact h w hw
  · rw [List.mem_append, not_or] at hw
    exact Or.inl (iff_of_false (fun hm => hw.1 hm.1) fun hm => hw.2 hm.1)

/-- Without repeated keys, a landing that merges and one that does not leave the same of a key. -/
theorem filter_land_unique {lake : Lake} {df : List FrameRow} {w : Nat × Nat} {k : Key}
    (hk : k.notOf node) (hlake : ∀ r ∈ rowsOf lake (kind, w), Shaped kind r)
    (hnew : Keyed.UniqueKeys (·.key kind) (others node (df.filter (host.week ·.ts = w))))
    (hold : Keyed.UniqueKeys (·.key kind) (others node (rowsOf lake (kind, w)))) :
    (rowsOf (land host kind lake df) (kind, w)).filter (·.key kind = k) =
      (mergedRow kind ((df.filter (host.week ·.ts = w)).filter (·.key kind = k)).getLast?
        ((rowsOf lake (kind, w)).filter (·.key kind = k)).getLast?).toList := by
  have hnew := hnew.getLast_filter k
  have hold := hold.getLast_filter k
  rw [filter_others, if_pos hk] at hnew hold
  obtain ⟨hmerge, hkeep⟩ := @filter_land host kind lake df w k
  by_cases h : Merges host kind lake df w
  · exact hmerge h
  · obtain ⟨hrows, hnil⟩ := hkeep h
    rw [hrows]
    rcases hnil with hnil | hnil
    · rw [hnil, List.nil_append, List.getLast?_nil, mergedRow]
      cases hlast : ((rowsOf lake (kind, w)).filter (·.key kind = k)).getLast? with
      | none => rw [← hold, hlast]; rfl
      | some o =>
        have ho := (List.mem_filter.mp (List.mem_of_getLast? hlast)).1
        rw [← hold, hlast, Option.map_some, restrict_self (hlake o ho)]
    · rw [hnil, List.append_nil, List.getLast?_nil]
      cases hlast : ((df.filter (host.week ·.ts = w)).filter (·.key kind = k)).getLast? with
      | none => rw [← hnew, hlast]; rfl
      | some n => rw [← hnew, hlast]; rfl

/-- Landings of the same rows of every other node keep two lakes in agreement on them. -/
theorem land_agree {lake lake' : Lake} {df df' : List FrameRow}
    (hlake : OthersAgree node lake lake') (hdf : others node df = others node df')
    (hshape : ∀ p, ∀ r ∈ rowsOf lake p, Shaped p.1 r)
    (hshape' : ∀ p, ∀ r ∈ rowsOf lake' p, Shaped p.1 r)
    (hmerge : MergesAlike host node kind lake lake' df df') :
    OthersAgree node (land host kind lake df) (land host kind lake' df') := by
  rintro ⟨kind', w⟩
  by_cases hkind : kind' = kind
  · subst hkind
    intro k
    have hold := hlake (kind', w) k
    have hweek : others node (df.filter (host.week ·.ts = w)) =
        others node (df'.filter (host.week ·.ts = w)) := by rw [others_week, others_week, hdf]
    have hnew := congrArg (List.filter (·.key kind' = k)) hweek
    simp only [filter_others] at hold hnew ⊢
    by_cases hk : k.notOf node
    · rw [if_pos hk, if_pos hk] at hold hnew ⊢
      rcases hmerge.week w with hiff | ⟨huniqueNew, huniqueOld⟩
      · obtain ⟨hmerged, hkept⟩ := @filter_land host kind' lake df w k
        obtain ⟨hmerged', hkept'⟩ := @filter_land host kind' lake' df' w k
        by_cases h : Merges host kind' lake df w
        · rw [hmerged h, hmerged' (hiff.mp h), hold, hnew]
        · rw [(hkept h).1, (hkept' fun h' => h (hiff.mpr h')).1, hold, hnew]
      · have huniqueOld' : Keyed.UniqueKeys (·.key kind') (others node (rowsOf lake' (kind', w))) :=
          huniqueOld.perm (hlake (kind', w)).perm
        rw [filter_land_unique hk (hshape _) huniqueNew huniqueOld,
          filter_land_unique hk (hshape' _) (hweek ▸ huniqueNew) huniqueOld', hold, hnew]
    · rw [if_neg hk, if_neg hk]
  · rw [rowsOf_land_ne hkind, rowsOf_land_ne hkind]
    exact hlake (kind', w)

end Others

end GridWitness.Acquirer
