import Mathlib.Data.List.Nodup
import Mathlib.Data.List.Perm.Basic

universe u v

namespace GridWitness.Library.Keyed

variable {κ : Type u} {ρ : Type v} (key : ρ → κ)

/-- No two rows of a list have the same key. -/
def UniqueKeys (rows : List ρ) : Prop := (rows.map key).Nodup

variable {key} {rows rows' : List ρ} {k : κ} {r : ρ}

theorem uniqueKeys_cons :
    UniqueKeys key (r :: rows) ↔ (∀ a ∈ rows, key a ≠ key r) ∧ UniqueKeys key rows := by
  simp [UniqueKeys]

theorem UniqueKeys.perm (h : UniqueKeys key rows) (hp : rows.Perm rows') :
    UniqueKeys key rows' := ((hp.map key).nodup_iff).mp h

theorem UniqueKeys.sublist (h : UniqueKeys key rows) (hs : rows'.Sublist rows) :
    UniqueKeys key rows' := List.Nodup.sublist (hs.map key) h

theorem UniqueKeys.eq (h : UniqueKeys key rows) {a b : ρ} (ha : a ∈ rows) (hb : b ∈ rows)
    (hkey : key a = key b) : a = b := List.inj_on_of_nodup_map h ha hb hkey

/-- Keys are unique when they are within each group, where rows of one key share a group. -/
theorem uniqueKeys_of_groups {γ : Type*} [DecidableEq γ] {group : ρ → γ}
    (hgroup : ∀ a b, key a = key b → group a = group b)
    (h : ∀ r ∈ rows, UniqueKeys key (rows.filter (group · = group r))) : UniqueKeys key rows := by
  rw [UniqueKeys, List.Nodup, List.pairwise_map, List.pairwise_iff_forall_sublist]
  intro a b hab hkey
  have ha : a ∈ rows := hab.subset List.mem_cons_self
  have hsub := hab.filter (group · = group a)
  rw [List.filter_cons_of_pos (by simp), List.filter_cons_of_pos
    (by simpa using (hgroup a b hkey).symm), List.filter_nil] at hsub
  exact (uniqueKeys_cons.mp ((h a ha).sublist hsub)).1 b List.mem_cons_self hkey.symm

variable [DecidableEq κ]

variable (key) in
/-- The first row of a key. -/
def rowAt (rows : List ρ) (k : κ) : Option ρ := rows.find? (key · = k)

variable (key) in
/-- Keep the last row of each key. -/
def keepLast : List ρ → List ρ
  | [] => []
  | r :: rows => if rows.any (key · = key r) then keepLast rows else r :: keepLast rows

instance : Decidable (UniqueKeys key rows) := inferInstanceAs (Decidable (List.Nodup _))

theorem rowAt_eq_none : rowAt key rows k = none ↔ ∀ r ∈ rows, key r ≠ k := by
  simp [rowAt]

theorem mem_of_rowAt (h : rowAt key rows k = some r) : r ∈ rows ∧ key r = k :=
  ⟨List.mem_of_find?_eq_some h, by simpa using List.find?_some h⟩

theorem UniqueKeys.rowAt (h : UniqueKeys key rows) :
    rowAt key rows k = some r ↔ r ∈ rows ∧ key r = k := by
  refine ⟨mem_of_rowAt, fun ⟨hr, hkey⟩ => ?_⟩
  cases hfind : Keyed.rowAt key rows k with
  | none => exact absurd hkey (rowAt_eq_none.mp hfind r hr)
  | some a =>
    obtain ⟨ha, hakey⟩ := mem_of_rowAt hfind
    rw [h.eq ha hr (hakey.trans hkey.symm)]

theorem UniqueKeys.filter_eq (h : UniqueKeys key rows) (k : κ) :
    rows.filter (key · = k) = (Keyed.rowAt key rows k).toList := by
  induction rows with
  | nil => rfl
  | cons r rows ih =>
    obtain ⟨hr, hrows⟩ := uniqueKeys_cons.mp h
    by_cases hk : key r = k
    · have hnil : rows.filter (key · = k) = [] := by
        rw [List.filter_eq_nil_iff]
        intro a ha hkey
        exact hr a ha (by simpa [hk] using hkey)
      rw [List.filter_cons_of_pos (by simpa using hk), hnil, Keyed.rowAt,
        List.find?_cons_of_pos (by simpa using hk)]
      rfl
    · rw [List.filter_cons_of_neg (by simpa using hk), ih hrows, Keyed.rowAt, Keyed.rowAt,
        List.find?_cons_of_neg (by simpa using hk)]

/-- With unique keys, the last row of a key is all its rows. -/
theorem UniqueKeys.getLast_filter (h : UniqueKeys key rows) (k : κ) :
    (rows.filter (key · = k)).getLast?.toList = rows.filter (key · = k) := by
  rw [h.filter_eq]
  cases Keyed.rowAt key rows k <;> rfl

variable (key) in
/-- Two lists hold the same rows of each key, in the same order. -/
def Agree (rows rows' : List ρ) : Prop := ∀ k, rows.filter (key · = k) = rows'.filter (key · = k)

theorem Agree.perm (h : Agree key rows rows') : rows.Perm rows' := by
  classical
  rw [List.perm_iff_count]
  intro r
  have hcount : ∀ rows : List ρ, rows.count r = (rows.filter (key · = key r)).count r := fun rows =>
    (List.count_filter (by simp)).symm
  rw [hcount rows, hcount rows', h (key r)]

/-- Lists with unique keys are told apart by their rows. -/
theorem UniqueKeys.perm_of_rows (h : UniqueKeys key rows) (h' : UniqueKeys key rows')
    (hrows : ∀ k, Keyed.rowAt key rows k = Keyed.rowAt key rows' k) : rows.Perm rows' := by
  have hagree : Agree key rows rows' := fun k => by rw [h.filter_eq k, h'.filter_eq k, hrows k]
  exact hagree.perm

theorem keepLast_sublist (rows : List ρ) : (keepLast key rows).Sublist rows := by
  induction rows with
  | nil => exact .slnil
  | cons r rows ih =>
    simp only [keepLast]
    split
    · exact ih.cons r
    · exact ih.cons_cons r

theorem keepLast_unique (rows : List ρ) : UniqueKeys key (keepLast key rows) := by
  induction rows with
  | nil => exact List.nodup_nil
  | cons r rows ih =>
    simp only [keepLast]
    split
    · exact ih
    · next h =>
      refine uniqueKeys_cons.mpr ⟨fun a ha hkey => h ?_, ih⟩
      exact List.any_eq_true.mpr ⟨a, (keepLast_sublist rows).subset ha, by simpa using hkey⟩

theorem UniqueKeys.keepLast (h : UniqueKeys key rows) : Keyed.keepLast key rows = rows := by
  induction rows with
  | nil => rfl
  | cons r rows ih =>
    obtain ⟨hr, hrows⟩ := uniqueKeys_cons.mp h
    have hany : rows.any (key · = key r) = false := by simpa using hr
    rw [Keyed.keepLast, hany, ih hrows]
    rfl

/-- The row kept for a key is its last one. -/
theorem rowAt_keepLast (rows : List ρ) (k : κ) :
    rowAt key (keepLast key rows) k = (rows.filter (key · = k)).getLast? := by
  induction rows with
  | nil => rfl
  | cons r rows ih =>
    simp only [keepLast]
    split
    · next h =>
      rw [ih]
      by_cases hk : key r = k
      · obtain ⟨a, ha, hkey⟩ := List.any_eq_true.mp h
        have hne : rows.filter (key · = k) ≠ [] :=
          List.ne_nil_of_mem (List.mem_filter.mpr ⟨ha, by simpa [hk] using hkey⟩)
        rw [List.filter_cons_of_pos (by simpa using hk), List.getLast?_cons_of_ne_nil hne]
      · rw [List.filter_cons_of_neg (by simpa using hk)]
    · next h =>
      by_cases hk : key r = k
      · have hnil : rows.filter (key · = k) = [] := by
          rw [List.filter_eq_nil_iff]
          intro a ha hkey
          exact h (List.any_eq_true.mpr ⟨a, ha, by simpa [hk] using hkey⟩)
        rw [List.filter_cons_of_pos (by simpa using hk), hnil]
        simp [rowAt, hk]
      · rw [List.filter_cons_of_neg (by simpa using hk), ← ih]
        simp [rowAt, hk]

end GridWitness.Library.Keyed
