import Mathlib.Data.List.Nodup
import Mathlib.Data.List.Perm.Basic

universe u v w

namespace GridWitness.Library.Bucket

variable {κ : Type u} {ρ : Type v} {ρ' : Type w}

def keys (bs : List (κ × List ρ)) : List κ := bs.map (·.1)

@[simp] theorem keys_cons (b : κ × List ρ) (bs : List (κ × List ρ)) :
    keys (b :: bs) = b.1 :: keys bs := rfl

/-- Transform the groups, keeping the keys. -/
def mapGroups (f : List ρ → List ρ') (bs : List (κ × List ρ)) : List (κ × List ρ') :=
  bs.map fun b => (b.1, f b.2)

@[simp] theorem keys_mapGroups (f : List ρ → List ρ') (bs : List (κ × List ρ)) :
    keys (mapGroups f bs) = keys bs := by
  simp [keys, mapGroups]

variable [DecidableEq κ]

/-- Append a row to the group of its key; a new key opens a group at the end. -/
def add (k : κ) (r : ρ) : List (κ × List ρ) → List (κ × List ρ)
  | [] => [(k, [r])]
  | (j, g) :: bs => if j = k then (j, g ++ [r]) :: bs else (j, g) :: add k r bs

/-- The group of a key, empty for a key without rows. -/
def group (k : κ) : List (κ × List ρ) → List ρ
  | [] => []
  | (j, g) :: bs => if j = k then g else group k bs

theorem group_add (j k : κ) (r : ρ) (bs : List (κ × List ρ)) :
    group j (add k r bs) = if j = k then group j bs ++ [r] else group j bs := by
  induction bs with
  | nil =>
    by_cases h : k = j
    · simp [add, group, h]
    · simp [add, group, h, Ne.symm h]
  | cons b bs ih =>
    obtain ⟨i, g⟩ := b
    simp only [add]
    by_cases hk : i = k
    · subst hk
      by_cases hj : i = j
      · simp [group, hj]
      · simp [group, hj, Ne.symm hj]
    · by_cases hj : i = j
      · subst hj
        simp [group, hk]
      · simp [group, hk, hj, ih]

theorem keys_add (k : κ) (r : ρ) (bs : List (κ × List ρ)) :
    keys (add k r bs) = if k ∈ keys bs then keys bs else keys bs ++ [k] := by
  induction bs with
  | nil => rfl
  | cons b bs ih =>
    obtain ⟨i, g⟩ := b
    by_cases hk : i = k
    · simp [add, hk]
    · simp only [add, if_neg hk, keys_cons, ih, List.mem_cons, Ne.symm hk, false_or]
      split <;> rfl

/-- No group is empty. -/
theorem add_ne_nil {k : κ} {r : ρ} {bs : List (κ × List ρ)} (h : ∀ b ∈ bs, b.2 ≠ []) :
    ∀ b ∈ add k r bs, b.2 ≠ [] := by
  induction bs with
  | nil => simp [add]
  | cons b bs ih =>
    obtain ⟨i, g⟩ := b
    rw [List.forall_mem_cons] at h
    simp only [add]
    split
    · exact List.forall_mem_cons.mpr ⟨List.append_ne_nil_of_right_ne_nil g (List.cons_ne_nil r []), h.2⟩
    · exact List.forall_mem_cons.mpr ⟨h.1, ih h.2⟩

variable (key : ρ → κ)

def bucket (rows : List ρ) : List (κ × List ρ) := rows.foldl (fun bs r => add (key r) r bs) []

theorem group_foldl (k : κ) (rows : List ρ) (bs : List (κ × List ρ)) :
    group k (rows.foldl (fun bs r => add (key r) r bs) bs) =
      group k bs ++ rows.filter (key · = k) := by
  induction rows generalizing bs with
  | nil => simp
  | cons r rows ih =>
    rw [List.foldl_cons, ih, group_add]
    by_cases h : k = key r
    · simp [h]
    · simp [h, Ne.symm h]

/-- Bucketing keeps, for every key, the rows of that key in their order. -/
@[simp] theorem group_bucket (k : κ) (rows : List ρ) :
    group k (bucket key rows) = rows.filter (key · = k) := by
  simp [bucket, group_foldl, group]

theorem keys_foldl_nodup (rows : List ρ) (bs : List (κ × List ρ)) (h : (keys bs).Nodup) :
    (keys (rows.foldl (fun bs r => add (key r) r bs) bs)).Nodup := by
  induction rows generalizing bs with
  | nil => exact h
  | cons r rows ih =>
    apply ih
    rw [keys_add]
    split
    · exact h
    · next hr => exact h.append (List.nodup_singleton _) (by simpa using hr)

theorem keys_bucket_nodup (rows : List ρ) : (keys (bucket key rows)).Nodup :=
  keys_foldl_nodup key rows [] List.nodup_nil

theorem group_eq_of_mem {k : κ} {g : List ρ} {bs : List (κ × List ρ)}
    (nodup : (keys bs).Nodup) (h : (k, g) ∈ bs) : group k bs = g := by
  induction bs with
  | nil => cases h
  | cons b bs ih =>
    obtain ⟨i, f⟩ := b
    simp only [keys_cons, List.nodup_cons] at nodup
    rcases List.mem_cons.mp h with heq | hmem
    · cases heq
      simp [group]
    · have hne : i ≠ k := fun hik => nodup.1 (hik ▸ List.mem_map_of_mem (f := Prod.fst) hmem)
      simp [group, hne, ih nodup.2 hmem]

theorem eq_filter_of_mem_bucket {k : κ} {g : List ρ} {rows : List ρ} (h : (k, g) ∈ bucket key rows) :
    g = rows.filter (key · = k) := by
  rw [← group_bucket, group_eq_of_mem (keys_bucket_nodup key rows) h]

theorem group_mapGroups (f : List ρ → List ρ') (hf : f [] = []) (k : κ) (bs : List (κ × List ρ)) :
    group k (mapGroups f bs) = f (group k bs) := by
  induction bs with
  | nil => simp [mapGroups, group, hf]
  | cons b bs ih =>
    simp only [mapGroups, List.map_cons, group] at ih ⊢
    split
    · rfl
    · exact ih

theorem mem_keys_foldl (k : κ) (rows : List ρ) (bs : List (κ × List ρ)) :
    k ∈ keys (rows.foldl (fun bs r => add (key r) r bs) bs) ↔
      k ∈ keys bs ∨ ∃ r ∈ rows, key r = k := by
  induction rows generalizing bs with
  | nil => simp
  | cons r rows ih =>
    have hstep : k ∈ keys (add (key r) r bs) ↔ k ∈ keys bs ∨ key r = k := by
      rw [keys_add]
      split
      · next h => exact ⟨Or.inl, fun hk => hk.elim id fun hr => hr ▸ h⟩
      · simp [eq_comm]
    rw [List.foldl_cons, ih, hstep]
    simp [or_assoc]

theorem mem_keys_bucket (k : κ) (rows : List ρ) :
    k ∈ keys (bucket key rows) ↔ ∃ r ∈ rows, key r = k := by
  rw [bucket, mem_keys_foldl]
  simp [keys]

/-- The groups of all keys of a list that has them all make up the rows. -/
theorem flatMap_filter_perm {key : ρ → Option κ} {ks : List κ} (hks : ks.Nodup) {rows : List ρ}
    (hrows : ∀ r ∈ rows, ∃ k ∈ ks, key r = some k) :
    (ks.flatMap fun k => rows.filter (key · = some k)).Perm rows := by
  have hall : ∀ ks : List κ, ks.Nodup →
      (ks.flatMap fun k => rows.filter (key · = some k)).Perm
        (rows.filter fun r => ∃ k ∈ ks, key r = some k) := by
    intro ks hks
    induction ks with
    | nil => simp
    | cons k ks ih =>
      obtain ⟨hk, hks⟩ := List.nodup_cons.mp hks
      have hsplit := List.filter_append_perm (key · = some k)
        (rows.filter fun r => ∃ j ∈ k :: ks, key r = some j)
      have hpos : (rows.filter fun r => ∃ j ∈ k :: ks, key r = some j).filter (key · = some k) =
          rows.filter (key · = some k) := by
        rw [List.filter_filter]
        apply List.filter_congr
        intro r _
        by_cases h : key r = some k <;> simp [h]
      have hneg : (rows.filter fun r => ∃ j ∈ k :: ks, key r = some j).filter
          (fun r => !decide (key r = some k)) = rows.filter fun r => ∃ j ∈ ks, key r = some j := by
        rw [List.filter_filter]
        apply List.filter_congr
        intro r _
        by_cases h : key r = some k
        · simp [h, hk]
        · simp [h]
      rw [hpos, hneg] at hsplit
      rw [List.flatMap_cons]
      exact ((ih hks).append_left _).trans hsplit
  have hself : rows.filter (fun r => ∃ k ∈ ks, key r = some k) = rows := by
    rw [List.filter_eq_self]
    intro r hr
    simpa using hrows r hr
  have hperm := hall ks hks
  rwa [hself] at hperm

end GridWitness.Library.Bucket
