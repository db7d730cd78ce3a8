import Mathlib.Data.List.Nodup

universe u v

namespace GridWitness.Library

/-- What is looked up in a list of pairs stands in it. -/
theorem mem_of_lookup {κ : Type u} {V : Type v} [BEq κ] [LawfulBEq κ] {l : List (κ × V)} {k : κ} {v : V}
    (h : l.lookup k = some v) : (k, v) ∈ l := by
  obtain ⟨before, after, hsplit, -⟩ := List.lookup_eq_some_iff.mp h
  rw [hsplit]
  exact List.mem_append_right _ List.mem_cons_self

/-- A dictionary that keeps its keys in the order they came in. -/
abbrev Dict (κ : Type u) (V : Type v) := List (κ × V)

namespace Dict

variable {κ : Type u} {V : Type v} [DecidableEq κ]

/-- Give a key a value made from the one it has; a new key comes last. -/
def alter (k : κ) (f : Option V → V) : Dict κ V → Dict κ V
  | [] => [(k, f none)]
  | (j, v) :: d => if j = k then (j, f (some v)) :: d else (j, v) :: alter k f d

def set (d : Dict κ V) (k : κ) (v : V) : Dict κ V := d.alter k fun _ => v

def keys (d : Dict κ V) : List κ := d.map (·.1)

def get (k : κ) : Dict κ V → Option V
  | [] => none
  | (j, v) :: d => if j = k then some v else get k d

theorem get_alter (d : Dict κ V) (k j : κ) (f : Option V → V) :
    (d.alter k f).get j = if j = k then some (f (d.get k)) else d.get j := by
  induction d with
  | nil =>
    by_cases hj : k = j
    · simp [alter, get, hj]
    · simp [alter, get, hj, Ne.symm hj]
  | cons item d ih =>
    obtain ⟨i, v⟩ := item
    by_cases hi : i = k
    · subst hi
      by_cases hj : i = j
      · simp [alter, get, hj]
      · simp [alter, get, hj, Ne.symm hj]
    · by_cases hj : i = j
      · subst hj
        simp [alter, get, hi]
      · simp [alter, get, hi, hj, ih]

theorem get_set (d : Dict κ V) (k j : κ) (v : V) :
    (d.set k v).get j = if j = k then some v else d.get j := get_alter d k j _

theorem keys_alter (d : Dict κ V) (k : κ) (f : Option V → V) :
    (d.alter k f).keys = if k ∈ d.keys then d.keys else d.keys ++ [k] := by
  induction d with
  | nil => rfl
  | cons item d ih =>
    obtain ⟨i, v⟩ := item
    by_cases hi : i = k
    · simp [alter, keys, hi]
    · have hmem : k ∈ keys ((i, v) :: d) ↔ k ∈ keys d := by simp [keys, Ne.symm hi]
      rw [alter, if_neg hi, keys, List.map_cons, ← keys, ih]
      split
      · next hk => rw [if_pos (hmem.mpr hk), keys, keys, List.map_cons]
      · next hk => rw [if_neg fun h => hk (hmem.mp h), keys, keys, List.map_cons, List.cons_append]

theorem nodup_alter {d : Dict κ V} (h : d.keys.Nodup) (k : κ) (f : Option V → V) :
    (d.alter k f).keys.Nodup := by
  rw [keys_alter]
  split
  · exact h
  · next hk => exact List.nodup_append.mpr ⟨h, List.nodup_singleton k, by grind⟩

theorem get_of_mem {d : Dict κ V} (h : d.keys.Nodup) {k : κ} {v : V} (hmem : (k, v) ∈ d) :
    d.get k = some v := by
  induction d with
  | nil => cases hmem
  | cons item d ih =>
    obtain ⟨i, w⟩ := item
    rw [keys, List.map_cons, List.nodup_cons] at h
    rcases List.mem_cons.mp hmem with heq | hmem
    · cases heq
      exact if_pos rfl
    · have hkey : k ∈ d.map (·.1) := List.mem_map_of_mem hmem
      have hne : i ≠ k := fun heq => h.1 (heq ▸ hkey)
      exact (if_neg hne).trans (ih h.2 hmem)

theorem mem_of_get {d : Dict κ V} {k : κ} {v : V} (h : d.get k = some v) : (k, v) ∈ d := by
  induction d with
  | nil => cases h
  | cons item d ih =>
    obtain ⟨i, w⟩ := item
    simp only [get] at h
    split at h
    · next hi =>
      cases h
      exact hi ▸ List.mem_cons_self
    · exact List.mem_cons_of_mem _ (ih h)

/-- A key of a dictionary with keys of their own has one value. -/
theorem filter_key {d : Dict κ V} (h : d.keys.Nodup) (k : κ) :
    d.filter (·.1 = k) = (d.get k).toList.map fun v => (k, v) := by
  induction d with
  | nil => rfl
  | cons item d ih =>
    obtain ⟨i, w⟩ := item
    rw [keys, List.map_cons, List.nodup_cons] at h
    rw [List.filter_cons, ih h.2]
    by_cases hi : i = k
    · subst hi
      have hnone : get i d = none := by
        refine Option.eq_none_iff_forall_ne_some.mpr fun v hv => h.1 ?_
        exact List.mem_map.mpr ⟨(i, v), mem_of_get hv, rfl⟩
      simp [get, hnone]
    · simp [get, hi]

end Dict

end GridWitness.Library
