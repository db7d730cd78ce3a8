import GridWitness.Acquirer.Run
import GridWitness.Server.StagedLines

namespace GridWitness.Acquirer

open Library Server

theorem get_map (r : Row) (f : String → Cell → Cell) (column : String) :
    Row.get (r.map fun (c, v) => (c, f c v)) column =
      ((List.lookup column r).map (f column)).getD .null := by
  induction r with
  | nil => rfl
  | cons cv r ih =>
    obtain ⟨c, v⟩ := cv
    simp only [Row.get, List.map_cons, List.lookup_cons] at ih ⊢
    cases h : column == c with
    | true =>
      have hc : column = c := by simpa using h
      simp [hc]
    | false => exact ih

theorem get_columns {columns : List String} {f : String → Cell} {column : String} :
    Row.get (columns.map fun c => (c, f c)) column =
      if column ∈ columns then f column else .null := by
  rw [List.map_prod_left_eq_zip]
  exact Row.get_zip_map

/-- The rows of a list have a key. -/
def HasKey (kind : Kind) (rows : List FrameRow) (k : Key) : Prop := ∃ r ∈ rows, r.key kind = k

def Landed (lake : Lake) (kind : Kind) (k : Key) : Prop :=
  ∃ w rows, lake.lookup (kind, w) = some rows ∧ HasKey kind rows k

section Merge

variable {kind : Kind} {rows payload prev : List FrameRow} {k : Key}

theorem hasKey_sortByKey : HasKey kind (sortByKey kind rows) k ↔ HasKey kind rows k := by
  simp [HasKey, sortByKey, List.mem_insertionSort]

theorem hasKey_keepLast : HasKey kind (keepLast kind rows) k ↔ HasKey kind rows k := by
  induction rows with
  | nil => rfl
  | cons r rows ih =>
    simp only [keepLast]
    split
    · next h =>
      rw [ih]
      simp only [HasKey, List.mem_cons, exists_eq_or_imp]
      constructor
      · exact Or.inr
      · rintro (rfl | hk)
        · simpa using h
        · exact hk
    · simp only [HasKey, List.mem_cons, exists_eq_or_imp] at ih ⊢
      rw [ih]

theorem key_fill {new old : FrameRow} (h : old.key kind = new.key kind) :
    (fill new old).key kind = new.key kind := by
  simp only [FrameRow.key, Prod.mk.injEq] at h ⊢
  refine ⟨rfl, List.map_congr_left fun c hc => ?_⟩
  have hsame : old.values.get c = new.values.get c :=
    List.map_inj_left.mp h.2 c hc
  rw [fill, get_map new.values fun c v => if v = .null then old.values.get c else v, hsame, Row.get]
  cases List.lookup c new.values with
  | none => rfl
  | some v =>
    simp only [Option.map_some, Option.getD_some]
    split <;> rfl

theorem key_restrict (r : FrameRow) : (restrict kind r).key kind = r.key kind := by
  simp only [FrameRow.key, restrict, Prod.mk.injEq, true_and]
  apply List.map_congr_left
  intro c hc
  rw [get_columns, if_pos]
  revert c
  cases kind <;> decide

theorem key_fillFrom (n : FrameRow) : (fillFrom kind prev n).key kind = n.key kind := by
  rw [fillFrom]
  split
  · rfl
  · next o ho => exact key_fill (by simpa using List.find?_some ho)

theorem hasKey_combineFirst :
    HasKey kind (combineFirst kind payload prev) k ↔
      HasKey kind payload k ∨ HasKey kind prev k := by
  simp only [HasKey, combineFirst, List.mem_append, List.mem_map, List.mem_filter]
  constructor
  · rintro ⟨r, ⟨n, hn, rfl⟩ | ⟨o, ⟨ho, -⟩, rfl⟩, rfl⟩
    · exact Or.inl ⟨n, hn, (key_fillFrom n).symm⟩
    · exact Or.inr ⟨o, ho, (key_restrict o).symm⟩
  · rintro (⟨n, hn, rfl⟩ | ⟨o, ho, rfl⟩)
    · exact ⟨_, Or.inl ⟨n, hn, rfl⟩, key_fillFrom n⟩
    · by_cases hsome : payload.any (·.key kind = o.key kind) = true
      · obtain ⟨n, hn, hkey⟩ := List.any_eq_true.mp hsome
        exact ⟨_, Or.inl ⟨n, hn, rfl⟩, (key_fillFrom n).trans (by simpa using hkey)⟩
      · exact ⟨_, Or.inr ⟨o, ⟨ho, by simpa using hsome⟩, rfl⟩, key_restrict o⟩

theorem hasKey_merge :
    HasKey kind (merge kind payload prev) k ↔ HasKey kind payload k ∨ HasKey kind prev k := by
  rw [merge, hasKey_combineFirst, hasKey_keepLast, hasKey_keepLast]

end Merge

section Write

variable {host : Host} {kind : Kind} {readable : Partition → Bool} {lake : Lake} {k : Key}

/-- What the file of a partition holds after a payload for it is landed. -/
def landed (kind : Kind) (readable : Bool) (payload : List FrameRow) :
    Option (List FrameRow) → List FrameRow
  | none => sortByKey kind payload
  | some prev => if readable then sortByKey kind (merge kind payload prev) else prev

theorem lookup_writePartition (week : Nat × Nat) (payload : List FrameRow) (p : Partition) :
    (writePartition kind readable lake week payload).1.lookup p =
      if p = (kind, week) then some (landed kind (readable p) payload (lake.lookup p))
      else lake.lookup p := by
  simp only [writePartition]
  split
  · next hnone =>
    rw [Table.lookup_replaceRow]
    split
    · next h => rw [h, hnone, landed]
    · rfl
  · next prev hprev =>
    split
    · next hr =>
      rw [Table.lookup_replaceRow]
      split
      · next h => rw [h, hprev, landed, if_pos hr]
      · rfl
    · next hr =>
      split
      · next h => rw [h, hprev, landed, if_neg hr]
      · rfl

theorem mem_weeks {df : List FrameRow} {w : Nat × Nat} :
    w ∈ weeks host df ↔ ∃ r ∈ df, host.week r.ts = w := by
  rw [weeks, List.mem_insertionSort, List.mem_dedup, List.mem_map]

/-- A write lands each week of its rows in one file, and touches no other. -/
theorem lookup_writeDataset (df : List FrameRow) (p : Partition) :
    (writeDataset host kind readable lake df).1.lookup p =
      if p.1 = kind ∧ p.2 ∈ weeks host df then
        some (landed kind (readable p) (df.filter (host.week ·.ts = p.2)) (lake.lookup p))
      else lake.lookup p := by
  have hfold : ∀ (ws : List (Nat × Nat)), ws.Nodup → ∀ acc : Lake × Nat,
      (ws.foldl (writeWeek host kind readable df) acc).1.lookup p =
        if p.1 = kind ∧ p.2 ∈ ws then
          some (landed kind (readable p) (df.filter (host.week ·.ts = p.2)) (acc.1.lookup p))
        else acc.1.lookup p := by
    intro ws hws
    induction ws with
    | nil => simp
    | cons w ws ih =>
      obtain ⟨hw, hws⟩ := List.nodup_cons.mp hws
      intro acc
      rw [List.foldl_cons, ih hws, writeWeek, lookup_writePartition]
      by_cases hp : p = (kind, w)
      · subst hp
        simp [hw]
      · rw [if_neg hp]
        have hmem : p.1 = kind ∧ p.2 ∈ w :: ws ↔ p.1 = kind ∧ p.2 ∈ ws := by
          simp only [List.mem_cons, and_congr_right_iff, or_iff_right_iff_imp]
          rintro rfl rfl
          exact absurd rfl hp
        simp only [hmem]
  refine hfold (weeks host df) ?_ (lake, 0)
  exact (List.perm_insertionSort _ _).nodup_iff.mpr (List.nodup_dedup _)

/-- The keys of a kind in the file of a week. -/
def InWeek (lake : Lake) (kind : Kind) (w : Nat × Nat) (k : Key) : Prop :=
  ∃ rows, lake.lookup (kind, w) = some rows ∧ HasKey kind rows k

/-- A partition can be written: it is new, or its file is readable. -/
def Open (readable : Partition → Bool) (lake : Lake) (p : Partition) : Prop :=
  lake.lookup p = none ∨ readable p = true

theorem hasKey_landed {readable : Bool} {payload : List FrameRow} {old : Option (List FrameRow)} :
    HasKey kind (landed kind readable payload old) k ↔
      HasKey kind (old.getD []) k ∨ (old = none ∨ readable = true) ∧ HasKey kind payload k := by
  cases old with
  | none =>
    rw [landed, hasKey_sortByKey]
    simp [HasKey]
  | some prev =>
    cases readable with
    | false => simp [landed]
    | true => simp [landed, hasKey_sortByKey, hasKey_merge, or_comm]

/-- A write adds to the file of a week the keys of that week, if it can write the file. -/
theorem inWeek_writeDataset (kind' : Kind) (w : Nat × Nat) (df : List FrameRow) :
    InWeek (writeDataset host kind readable lake df).1 kind' w k ↔ InWeek lake kind' w k ∨
      kind' = kind ∧ w = host.week k.1 ∧ Open readable lake (kind, w) ∧ HasKey kind df k := by
  have hold : InWeek lake kind' w k ↔ HasKey kind' ((lake.lookup (kind', w)).getD []) k := by
    cases hrows : lake.lookup (kind', w) <;> simp [InWeek, hrows, HasKey]
  have hweek : HasKey kind (df.filter (host.week ·.ts = w)) k ↔
      w = host.week k.1 ∧ HasKey kind df k := by
    constructor
    · rintro ⟨r, hr, rfl⟩
      obtain ⟨hr, hw⟩ := List.mem_filter.mp hr
      exact ⟨(of_decide_eq_true hw).symm, r, hr, rfl⟩
    · rintro ⟨rfl, r, hr, rfl⟩
      exact ⟨r, List.mem_filter.mpr ⟨hr, decide_eq_true rfl⟩, rfl⟩
  rw [InWeek, lookup_writeDataset]
  split
  · next hp =>
    obtain ⟨rfl, -⟩ := hp
    simp only [Option.some.injEq, exists_eq_left', hasKey_landed, hweek, hold, Open]
    tauto
  · next hp =>
    rw [← InWeek, iff_self_or]
    rintro ⟨rfl, rfl, -, r, hr, rfl⟩
    exact absurd ⟨rfl, mem_weeks.mpr ⟨r, hr, rfl⟩⟩ hp

/-- A write lands the keys of its rows as far as their files can be written, and nothing else. -/
theorem writeDataset_lands (kind' : Kind) (df : List FrameRow) :
    Landed (writeDataset host kind readable lake df).1 kind' k ↔ Landed lake kind' k ∨
      kind' = kind ∧ Open readable lake (kind, host.week k.1) ∧ HasKey kind df k := by
  change (∃ w, InWeek _ kind' w k) ↔ (∃ w, InWeek lake kind' w k) ∨ _
  simp only [inWeek_writeDataset, exists_or, exists_and_left, exists_eq_left]

theorem writeDataset_landed (hr : ∀ p, readable p = true) (kind' : Kind) (df : List FrameRow) :
    Landed (writeDataset host kind readable lake df).1 kind' k ↔
      Landed lake kind' k ∨ kind' = kind ∧ HasKey kind df k := by
  simp [writeDataset_lands, Open, hr]

end Write

end GridWitness.Acquirer
