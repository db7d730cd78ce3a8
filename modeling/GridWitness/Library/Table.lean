import Mathlib.Data.List.AList

universe u v w

namespace GridWitness.Library

abbrev Table (κ : Type u) (V : Type v) := AList fun _ : κ => V

namespace Table

variable {κ : Type u} {V : Type v} [DecidableEq κ]

/-- `INSERT` into a table with a primary key: refused when the key is already present. -/
def insertRow (t : Table κ V) (k : κ) (v : V) : Option (Table κ V) :=
  if k ∈ t then none else some (t.insert k v)

def updateRow (t : Table κ V) (k : κ) (f : V → V) : Table κ V :=
  match t.lookup k with
  | none => t
  | some v => t.insert k (f v)

def replaceRow (t : Table κ V) (k : κ) (v : V) : Table κ V := AList.insert k v t

def deleteRow (t : Table κ V) (k : κ) : Table κ V := AList.erase k t

theorem insertRow_eq_some {t t' : Table κ V} {k : κ} {v : V} (h : t.insertRow k v = some t') :
    t.lookup k = none ∧ ∀ j, t'.lookup j = if j = k then some v else t.lookup j := by
  simp only [insertRow] at h
  split at h
  · cases h
  · next hk =>
    cases h
    refine ⟨AList.lookup_eq_none.mpr hk, fun j => ?_⟩
    by_cases hj : j = k
    · subst hj
      simp
    · simp [hj]

theorem insertRow_isSome {t : Table κ V} {k : κ} {v : V} (h : t.lookup k = none) :
    (t.insertRow k v).isSome := by
  simp [insertRow, AList.lookup_eq_none.mp h]

theorem lookup_updateRow (t : Table κ V) (k j : κ) (f : V → V) :
    (t.updateRow k f).lookup j = if j = k then (t.lookup k).map f else t.lookup j := by
  cases hk : t.lookup k with
  | none =>
    by_cases hj : j = k
    · subst hj
      simp [updateRow, hk]
    · simp [updateRow, hk, hj]
  | some v =>
    by_cases hj : j = k
    · subst hj
      simp [updateRow, hk]
    · simp [updateRow, hk, hj]

theorem lookup_replaceRow (t : Table κ V) (k j : κ) (v : V) :
    (t.replaceRow k v).lookup j = if j = k then some v else t.lookup j := by
  by_cases hj : j = k
  · subst hj
    simp [replaceRow]
  · simp [replaceRow, hj]

theorem replaceRow_replaceRow (t : Table κ V) (k : κ) (v w : V) :
    (t.replaceRow k v).replaceRow k w = t.replaceRow k w := AList.insert_insert t

theorem lookup_deleteRow (t : Table κ V) (k j : κ) :
    (t.deleteRow k).lookup j = if j = k then none else t.lookup j := by
  by_cases hj : j = k
  · subst hj
    simp [deleteRow]
  · simp [deleteRow, hj, AList.lookup_erase_ne hj]

/-- Two tables with the same keys in the same order and related rows. -/
structure Rel {W : Type w} (R : κ → V → W → Prop) (t : Table κ V) (t' : Table κ W) : Prop where
  keys : t.keys = t'.keys
  rows : ∀ k, Option.Rel (R k) (t.lookup k) (t'.lookup k)

section Rel

variable {W : Type w} {R : κ → V → W → Prop} {t : Table κ V} {t' : Table κ W} {k : κ}

theorem Rel.empty : Rel R (∅ : Table κ V) (∅ : Table κ W) where
  keys := rfl
  rows k := by
    rw [AList.lookup_empty, AList.lookup_empty]
    exact .none

theorem Rel.replaceRow (h : Rel R t t') {v : V} {v' : W} (hv : R k v v') :
    Rel R (t.replaceRow k v) (t'.replaceRow k v') where
  keys := by rw [Table.replaceRow, Table.replaceRow, AList.keys_insert, AList.keys_insert, h.keys]
  rows j := by
    rw [lookup_replaceRow, lookup_replaceRow]
    split
    · next hj =>
      subst hj
      exact .some hv
    · exact h.rows j

theorem Rel.deleteRow (h : Rel R t t') (k : κ) : Rel R (t.deleteRow k) (t'.deleteRow k) where
  keys := by rw [Table.deleteRow, Table.deleteRow, AList.keys_erase, AList.keys_erase, h.keys]
  rows j := by
    rw [lookup_deleteRow, lookup_deleteRow]
    split
    · exact .none
    · exact h.rows j

theorem Rel.lookup (h : Rel R t t') (k : κ) :
    (t.lookup k = none ∧ t'.lookup k = none) ∨
      ∃ v v', t.lookup k = some v ∧ t'.lookup k = some v' ∧ R k v v' := by
  have hrow := h.rows k
  generalize t.lookup k = row at hrow
  generalize t'.lookup k = row' at hrow
  cases hrow with
  | none => exact Or.inl ⟨rfl, rfl⟩
  | some hv => exact Or.inr ⟨_, _, rfl, rfl, hv⟩

theorem Rel.updateRow (h : Rel R t t') {f : V → V} {f' : W → W}
    (hf : ∀ v v', R k v v' → R k (f v) (f' v')) :
    Rel R (t.updateRow k f) (t'.updateRow k f') := by
  simp only [Table.updateRow]
  rcases h.lookup k with ⟨hrow, hrow'⟩ | ⟨v, v', hrow, hrow', hv⟩
  · rw [hrow, hrow']
    exact h
  · rw [hrow, hrow']
    exact h.replaceRow (hf v v' hv)

theorem Rel.insertRow (h : Rel R t t') {v : V} {v' : W} (hv : R k v v') :
    Option.Rel (Rel R) (t.insertRow k v) (t'.insertRow k v') := by
  have hmem : k ∈ t ↔ k ∈ t' := by rw [AList.mem_keys, AList.mem_keys, h.keys]
  simp only [Table.insertRow, ← hmem]
  split
  · exact .none
  · exact .some (h.replaceRow hv)

end Rel

section Moves

variable {β : Type w} {k : κ} {ks ks' ks'' : List κ}

/-- Of the keys one may have come to the front. -/
def Moves (k : κ) (ks ks' : List κ) : Prop := ks' = ks ∨ ks' = k :: ks.erase k

theorem Moves.trans (h : Moves k ks ks') (h' : Moves k ks' ks'') : Moves k ks ks'' := by
  rcases h' with rfl | rfl
  · exact h
  · rcases h with rfl | rfl
    · exact Or.inr rfl
    · exact Or.inr (by rw [List.erase_cons_head])

theorem keys_updateRow (t : Table κ V) (k : κ) (f : V → V) : Moves k t.keys (t.updateRow k f).keys := by
  rw [updateRow]
  split
  · exact Or.inl rfl
  · exact Or.inr (AList.keys_insert ..)

theorem keys_insertRow {t t' : Table κ V} {v : V} (h : t.insertRow k v = some t') : Moves k t.keys t'.keys := by
  rw [insertRow] at h
  split at h
  · cases h
  · cases h
    exact Or.inr (AList.keys_insert ..)

theorem filterMap_erase {f : κ → Option β} (h : f k = none) : (ks.erase k).filterMap f = ks.filterMap f := by
  induction ks with
  | nil => rfl
  | cons j ks ih =>
    by_cases hj : j = k
    · rw [hj, List.erase_cons_head, List.filterMap_cons_none h]
    · rw [List.erase_cons_tail (by simpa using hj), List.filterMap_cons, List.filterMap_cons, ih]

/-- What is read off the other keys keeps its order. -/
theorem Moves.filterMap (h : Moves k ks ks') {f f' : κ → Option β} (hk : f k = none) (hk' : f' k = none)
    (hrest : ∀ j, j ≠ k → f' j = f j) : ks'.filterMap f' = ks.filterMap f := by
  have hsame : f' = f := by
    funext j
    by_cases hj : j = k
    · rw [hj, hk, hk']
    · exact hrest j hj
  rw [hsame]
  rcases h with rfl | rfl
  · rfl
  · rw [List.filterMap_cons_none hk, filterMap_erase hk]

end Moves

end Table

end GridWitness.Library
