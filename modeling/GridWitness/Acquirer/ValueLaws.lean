import GridWitness.Acquirer.MergeLaws

namespace GridWitness.Acquirer

open Library Server Keyed

/-- A value that is neither missing nor a staged null. -/
def Real (c : Cell) : Prop := c ≠ .null ∧ c ≠ .text ""

instance : DecidablePred Real := fun _ => inferInstanceAs (Decidable (_ ∧ _))

/-- The columns of a frame beside its key. -/
def dataColumns (kind : Kind) : List String := (columns kind).filter (· ∉ keyColumns kind)

theorem mem_columns {kind : Kind} {c : String} (h : c ∈ dataColumns kind) : c ∈ columns kind :=
  (List.mem_filter.mp h).1

/-- A row with exactly the columns of its kind. -/
def Shaped (kind : Kind) (r : FrameRow) : Prop :=
  r.values = (columns kind).map fun c => (c, r.values.get c)

section Values

variable {kind : Kind} {n o : FrameRow} {c : String}

theorem get_fill (h : Shaped kind n) (hc : c ∈ columns kind) :
    (fill n o).values.get c = if n.values.get c = .null then o.values.get c else n.values.get c := by
  rw [fill, h, List.map_map]
  have hget := @get_columns (columns kind)
    (fun c => if n.values.get c = .null then o.values.get c else n.values.get c) c
  rw [if_pos hc] at hget
  rw [← h]
  exact hget

theorem get_restrict (hc : c ∈ columns kind) : (restrict kind o).values.get c = o.values.get c := by
  rw [restrict, get_columns, if_pos hc]

theorem frame_shaped {host : Host} {rows : List Row} {r : FrameRow}
    (h : r ∈ frame host kind rows) : Shaped kind r := by
  obtain ⟨row, -, hrow⟩ := List.mem_filterMap.mp h
  simp only [frameRow] at hrow
  split at hrow
  · cases hrow
  · split at hrow
    · cases hrow
    · cases hrow
      simp only [Shaped]
      apply List.map_congr_left
      intro c hc
      rw [get_columns, if_pos hc]

end Values

section Keeps

variable (kind : Kind) (prev payload merged : List FrameRow)

/-- A payload offers a real value for a column of a key. -/
def Offers (k : Key) (c : String) (v : Cell) : Prop :=
  Real v ∧ ∃ r ∈ payload, r.key kind = k ∧ r.values.get c = v

/-- A merge keeps every key, and in each data column a value the payload offers, or otherwise the
value of the old row. -/
structure Keeps : Prop where
  keys : ∀ k, HasKey kind prev k ∨ HasKey kind payload k → HasKey kind merged k
  fresh : ∀ m ∈ merged, ∀ c ∈ dataColumns kind, (∃ v, Offers kind payload (m.key kind) c v) →
    Offers kind payload (m.key kind) c (m.values.get c)
  old : ∀ m ∈ merged, ∀ c ∈ dataColumns kind, (¬ ∃ v, Offers kind payload (m.key kind) c v) →
    ∀ o ∈ prev, o.key kind = m.key kind → Real (o.values.get c) → m.values.get c = o.values.get c

/-- The last payload row of each key decides each data column: it has a real value; or no payload
row has one, and it has none at all or the old row has no real one; or it has none at all, and the
old row has one the payload offers. -/
def LastDecides : Prop :=
  ∀ k, ∀ c ∈ dataColumns kind, ∀ last ∈ (payload.filter (·.key kind = k)).getLast?,
    Real (last.values.get c) ∨
    (¬ ∃ v, Offers kind payload k c v) ∧
      (last.values.get c = .null ∨ ∀ o ∈ prev, o.key kind = k → ¬ Real (o.values.get c)) ∨
    last.values.get c = .null ∧ ∃ o ∈ prev, o.key kind = k ∧ Offers kind payload k c (o.values.get c)

end Keeps

section Merge

variable {kind : Kind} {prev payload : List FrameRow} {m : FrameRow} {c : String}

/-- The old value of a column of a key. -/
def oldCell (kind : Kind) (prev : List FrameRow) (k : Key) (c : String) : Cell :=
  (rowAt (·.key kind) prev k).elim .null (·.values.get c)

theorem oldCell_of_mem (hprev : UniqueKeys (·.key kind) prev) {o : FrameRow} (ho : o ∈ prev) :
    oldCell kind prev (o.key kind) c = o.values.get c := by
  rw [oldCell, hprev.rowAt.mpr ⟨ho, rfl⟩]
  rfl

theorem mem_of_oldCell {k : Key} (h : Real (oldCell kind prev k c)) :
    ∃ o ∈ prev, o.key kind = k ∧ o.values.get c = oldCell kind prev k c := by
  simp only [oldCell] at h ⊢
  cases ho : rowAt (·.key kind) prev k with
  | none =>
    rw [ho] at h
    exact absurd rfl h.1
  | some o =>
    obtain ⟨hmem, hkey⟩ := mem_of_rowAt ho
    exact ⟨o, hmem, hkey, rfl⟩

/-- The merged value of a column: that of the last payload row, or the old one where it is null. -/
theorem merged_cell (hprev : UniqueKeys (·.key kind) prev) (hshape : ∀ r ∈ payload, Shaped kind r)
    (hm : m ∈ merge kind payload prev) (hc : c ∈ columns kind) :
    m.values.get c = ((payload.filter (·.key kind = m.key kind)).getLast?).elim
      (oldCell kind prev (m.key kind) c) fun n =>
        if n.values.get c = .null then oldCell kind prev (m.key kind) c else n.values.get c := by
  have hrow := (merge_unique kind payload prev).rowAt.mpr ⟨hm, rfl⟩
  rw [merge, keepLast_eq, keepLast_eq, hprev.keepLast,
    rowAt_combineFirst (keepLast_unique payload) hprev, rowAt_keepLast] at hrow
  cases hlast : (payload.filter (·.key kind = m.key kind)).getLast? with
  | none =>
    rw [hlast] at hrow
    obtain ⟨o, ho, rfl⟩ := Option.map_eq_some_iff.mp hrow
    rw [get_restrict hc, Option.elim_none, oldCell, ho]
    rfl
  | some n =>
    rw [hlast] at hrow
    have hn : Shaped kind n := hshape n (List.mem_filter.mp (List.mem_of_getLast? hlast)).1
    simp only [Option.elim_some, Option.some.injEq] at hrow ⊢
    rw [oldCell]
    generalize rowAt (·.key kind) prev (m.key kind) = old at hrow ⊢
    subst hrow
    cases old with
    | none =>
      simp only [Option.elim_none]
      split
      · next h => exact h
      · rfl
    | some o => exact get_fill hn hc

theorem merge_keeps (hprev : UniqueKeys (·.key kind) prev)
    (hshape : ∀ r ∈ payload, Shaped kind r) :
    Keeps kind prev payload (merge kind payload prev) ↔ LastDecides kind prev payload := by
  have hlastmem : ∀ {k last}, last ∈ (payload.filter (·.key kind = k)).getLast? →
      last ∈ payload ∧ last.key kind = k := by
    intro k last hlast
    have hmem := List.mem_filter.mp (List.mem_of_getLast? hlast)
    exact ⟨hmem.1, by simpa using hmem.2⟩
  have hlastsome : ∀ {k r}, r ∈ payload → r.key kind = k →
      ∃ last, last ∈ (payload.filter (·.key kind = k)).getLast? := by
    intro k r hr hkey
    have hne : payload.filter (·.key kind = k) ≠ [] :=
      List.ne_nil_of_mem (List.mem_filter.mpr ⟨hr, by simpa using hkey⟩)
    exact ⟨_, List.getLast?_eq_some_getLast hne⟩
  constructor
  · intro h k c hc last hlast
    obtain ⟨hmem, hkey⟩ := hlastmem hlast
    obtain ⟨m, hm, rfl⟩ := h.keys k (Or.inr ⟨last, hmem, hkey⟩)
    have hcell := merged_cell hprev hshape hm (mem_columns hc)
    rw [Option.mem_def.mp hlast, Option.elim_some] at hcell
    by_cases hoffers : ∃ v, Offers kind payload (m.key kind) c v
    · have hfresh := h.fresh m hm c hc hoffers
      rw [hcell] at hfresh
      split at hfresh
      · next hnull =>
        obtain ⟨o, ho, hokey, hocell⟩ := mem_of_oldCell hfresh.1
        exact Or.inr (Or.inr ⟨hnull, o, ho, hokey, hocell ▸ hfresh⟩)
      · exact Or.inl hfresh.1
    · refine Or.inr (Or.inl ⟨hoffers, ?_⟩)
      by_cases hnull : last.values.get c = .null
      · exact Or.inl hnull
      · refine Or.inr fun o ho hokey hreal => hoffers ⟨o.values.get c, hreal, last, hmem, hkey, ?_⟩
        rw [← h.old m hm c hc hoffers o ho hokey hreal, hcell, if_neg hnull]
  · intro h
    refine ⟨fun k hk => hasKey_merge.mpr hk.symm, ?_, ?_⟩
    · rintro m hm c hc ⟨v, hv⟩
      have hcell := merged_cell hprev hshape hm (mem_columns hc)
      obtain ⟨r, hr, hkey, -⟩ := hv.2
      obtain ⟨last, hlast⟩ := hlastsome hr hkey
      obtain ⟨hmem, hlastkey⟩ := hlastmem hlast
      rw [Option.mem_def.mp hlast, Option.elim_some] at hcell
      rcases h _ c hc last hlast with hreal | ⟨hnone, -⟩ | ⟨hnull, o, ho, hokey, hoffers⟩
      · rw [hcell, if_neg hreal.1]
        exact ⟨hreal, last, hmem, hlastkey, rfl⟩
      · exact absurd ⟨v, hv⟩ hnone
      · rw [hcell, if_pos hnull, ← hokey, oldCell_of_mem hprev ho, hokey]
        exact hoffers
    · intro m hm c hc hnone o ho hokey hreal
      have hcell := merged_cell hprev hshape hm (mem_columns hc)
      have hold : oldCell kind prev (m.key kind) c = o.values.get c := by
        rw [← hokey, oldCell_of_mem hprev ho]
      cases hlast : (payload.filter (·.key kind = m.key kind)).getLast? with
      | none => rw [hcell, hlast, Option.elim_none, hold]
      | some last =>
        obtain ⟨hmem, hlastkey⟩ := hlastmem (Option.mem_def.mpr hlast)
        rw [hcell, hlast, Option.elim_some]
        rcases h _ c hc last hlast with hlastreal | ⟨-, hnull | hnotreal⟩ | ⟨-, o', -, -, hoffers⟩
        · exact absurd ⟨_, hlastreal, last, hmem, hlastkey, rfl⟩ hnone
        · rw [if_pos hnull, hold]
        · exact absurd hreal (hnotreal o ho hokey)
        · exact absurd ⟨_, hoffers⟩ hnone

theorem keeps_sortByKey {merged : List FrameRow} :
    Keeps kind prev payload (sortByKey kind merged) ↔ Keeps kind prev payload merged := by
  have hmem : ∀ m, m ∈ sortByKey kind merged ↔ m ∈ merged := fun m =>
    (sortByKey_perm kind merged).mem_iff
  constructor
  · rintro ⟨hkeys, hfresh, hold⟩
    exact ⟨fun k hk => hasKey_sortByKey.mp (hkeys k hk), fun m hm => hfresh m ((hmem m).mpr hm),
      fun m hm => hold m ((hmem m).mpr hm)⟩
  · rintro ⟨hkeys, hfresh, hold⟩
    exact ⟨fun k hk => hasKey_sortByKey.mpr (hkeys k hk), fun m hm => hfresh m ((hmem m).mp hm),
      fun m hm => hold m ((hmem m).mp hm)⟩

/-- Without a payload a file stays as it is. -/
theorem nil_keeps (hprev : UniqueKeys (·.key kind) prev) : Keeps kind prev [] prev where
  keys k hk := by simpa [HasKey] using hk
  fresh m hm c hc hoffers := by
    obtain ⟨v, -, r, hr, -⟩ := hoffers
    cases hr
  old m hm c hc hnone o ho hkey hreal := by rw [hprev.eq ho hm hkey]

end Merge

/-- The write of a payload loses no value exactly when the last payload row of each key decides
each data column. -/
theorem merge_keeps_iff (host : Host) (kind : Kind) (readable : Partition → Bool) (lake : Lake)
    (rows : List Row) (w : Nat × Nat) {prev : List FrameRow}
    (hfile : lake.lookup (kind, w) = some prev) (hreadable : readable (kind, w) = true)
    (hunique : UniqueKeys (·.key kind) prev) :
    let df := frame host kind rows
    let payload := df.filter (host.week ·.ts = w)
    ∃ merged, (writeDataset host kind readable lake df).1.lookup (kind, w) = some merged ∧
      (Keeps kind prev payload merged ↔ LastDecides kind prev payload) := by
  intro df payload
  rw [lookup_writeDataset, hfile]
  have hshape : ∀ r ∈ payload, Shaped kind r := fun r hr =>
    frame_shaped (List.mem_filter.mp hr).1
  split
  · refine ⟨_, rfl, ?_⟩
    rw [landed, if_pos hreadable, keeps_sortByKey]
    exact merge_keeps hunique hshape
  · next hw =>
    have hnil : payload = [] := by
      rw [List.filter_eq_nil_iff]
      intro r hr hweek
      exact hw ⟨rfl, mem_weeks.mpr ⟨r, hr, by simpa using hweek⟩⟩
    refine ⟨prev, rfl, ?_⟩
    rw [hnil]
    exact iff_of_true (nil_keeps hunique) fun k c hc last hlast => by cases hlast

/-- A staged row of nine o'clock with a voltage and a frequency, as text. -/
def nineRow (ts voltage frequency : String) : Row :=
  [("node_id", .text "n1"), ("ts_utc", .text ts), ("phase", .text "1p"),
    ("voltage_v", .text voltage), ("frequency_hz", .text frequency), ("firmware", .text "")]

/-- A lake that holds one row of nine o'clock. -/
def nineLake : Lake :=
  (writeDataset .july .electrical (fun _ => true) ∅
    (frame .july .electrical [nineRow "2026-07-10T09:00:00Z" "" "50"])).1

theorem merge_keeps_nineLake :
    ∃ prev merged, nineLake.lookup (.electrical, 2026, 28) = some prev ∧
      UniqueKeys (·.key .electrical) prev ∧
      (Keeps .electrical prev
          ((frame .july .electrical [nineRow "2026-07-10T09:00:00Z" "230" ""]).filter
            (Host.july.week ·.ts = (2026, 28))) merged ↔
        LastDecides .electrical prev
          ((frame .july .electrical [nineRow "2026-07-10T09:00:00Z" "230" ""]).filter
            (Host.july.week ·.ts = (2026, 28)))) := by
  obtain ⟨prev, hfile, hunique⟩ : ∃ prev, nineLake.lookup (.electrical, 2026, 28) = some prev ∧
      (prev.map (·.key .electrical)).Nodup := by
    refine ⟨(nineLake.lookup (.electrical, 2026, 28)).getD [], ?_, ?_⟩ <;> decide +kernel
  obtain ⟨merged, -, hkeeps⟩ := merge_keeps_iff .july .electrical (fun _ => true) nineLake
    [nineRow "2026-07-10T09:00:00Z" "230" ""] (2026, 28) hfile rfl hunique
  exact ⟨prev, merged, hfile, hunique, hkeeps⟩

/-- Of two payload rows for one instant the first has the voltage and the last does not. -/
theorem merge_drops_value :
    ¬ ∀ (host : Host) (kind : Kind) (readable : Partition → Bool) (lake : Lake) (rows : List Row)
      (w : Nat × Nat) (prev : List FrameRow), lake.lookup (kind, w) = some prev →
      readable (kind, w) = true → UniqueKeys (·.key kind) prev →
      ∃ merged, (writeDataset host kind readable lake (frame host kind rows)).1.lookup (kind, w) =
          some merged ∧
        Keeps kind prev ((frame host kind rows).filter (host.week ·.ts = w)) merged := by
  intro h
  let rows := [nineRow "2026-07-10T09:00:00Z" "230" "50", nineRow "2026-07-10T09:00:00Z" "" "50"]
  let lake := (writeDataset .july .electrical (fun _ => true) nineLake
    (frame .july .electrical rows)).1
  obtain ⟨prev, hfile, hunique⟩ : ∃ prev, nineLake.lookup (.electrical, 2026, 28) = some prev ∧
      (prev.map (·.key .electrical)).Nodup := by
    refine ⟨(nineLake.lookup (.electrical, 2026, 28)).getD [], ?_, ?_⟩ <;> decide +kernel
  obtain ⟨merged, hmerged, hkeeps⟩ := h .july .electrical (fun _ => true) nineLake rows (2026, 28)
    prev hfile rfl hunique
  have hrow : ∃ m ∈ (lake.lookup (.electrical, 2026, 28)).getD [],
      m.values.get "voltage_v" = .null ∧
      ∃ r ∈ (frame .july .electrical rows).filter (Host.july.week ·.ts = (2026, 28)),
        r.key .electrical = m.key .electrical ∧ Real (r.values.get "voltage_v") := by
    decide +kernel
  rw [show lake.lookup (.electrical, 2026, 28) = some merged from hmerged] at hrow
  obtain ⟨m, hm, hnull, r, hr, hkey, hreal⟩ := hrow
  have hoffers := hkeeps.fresh m hm "voltage_v" (by decide) ⟨_, hreal, r, hr, hkey, rfl⟩
  exact hoffers.1.1 hnull

end GridWitness.Acquirer
