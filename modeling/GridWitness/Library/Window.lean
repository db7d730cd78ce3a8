import Mathlib.Data.List.Nodup

universe u v

namespace GridWitness.Library

variable {κ : Type u} {ρ : Type v}

/-- A first-in first-out memory of at most `maxsize` distinct keys, oldest first. -/
structure Window (κ : Type u) where
  maxsize : Nat
  seen : List κ
  nodup : seen.Nodup
  bounded : seen.length ≤ maxsize

namespace Window

def empty (maxsize : Nat) : Window κ := ⟨maxsize, [], List.nodup_nil, Nat.zero_le _⟩

/-- Remember a new key, forgetting the oldest one when there is no room left. -/
def push (w : Window κ) (k : κ) (fresh : k ∉ w.seen) : Window κ where
  maxsize := w.maxsize
  seen := if w.maxsize < (w.seen ++ [k]).length then (w.seen ++ [k]).tail else w.seen ++ [k]
  nodup := by
    have hall : (w.seen ++ [k]).Nodup :=
      w.nodup.append (List.nodup_singleton k) (by simpa using fresh)
    split
    · exact hall.tail
    · exact hall
  bounded := by
    have := w.bounded
    split <;> simp_all

@[simp] theorem push_maxsize (w : Window κ) (k : κ) (h : k ∉ w.seen) :
    (w.push k h).maxsize = w.maxsize := rfl

theorem mem_push {w : Window κ} {k j : κ} {h : k ∉ w.seen} (hj : j ∈ (w.push k h).seen) :
    j ∈ w.seen ∨ j = k := by
  simp only [push] at hj
  split at hj
  · simpa using List.mem_of_mem_tail hj
  · simpa using hj

/-- The last `m` entries of a list. -/
def lastN (m : Nat) (ks : List κ) : List κ := ks.drop (ks.length - m)

/-- The window holds the last `maxsize` keys of the list of all keys accepted so far. -/
def Holds (w : Window κ) (accepted : List κ) : Prop := w.seen = lastN w.maxsize accepted

theorem empty_holds (m : Nat) : (empty m : Window κ).Holds [] := by simp [Holds, empty, lastN]

theorem push_holds {w : Window κ} {accepted : List κ} (hw : w.Holds accepted) (k : κ)
    (h : k ∉ w.seen) : (w.push k h).Holds (accepted ++ [k]) := by
  have hlen : w.seen.length = min w.maxsize accepted.length := by
    rw [hw, lastN, List.length_drop]
    omega
  simp only [Holds, push, lastN, List.length_append, List.length_singleton, hlen]
  split
  · rw [hw, lastN]
    rcases Nat.eq_zero_or_pos w.maxsize with hz | hpos
    · simp [hz]
    · rw [← List.drop_append_of_le_length (by omega), List.tail_drop]
      congr 1
      omega
  · rw [hw, lastN]
    have hle : accepted.length + 1 ≤ w.maxsize := by omega
    simp [Nat.sub_eq_zero_of_le hle, Nat.sub_eq_zero_of_le (Nat.le_of_succ_le hle)]

theorem holds_seen (w : Window κ) : w.Holds w.seen := by
  rw [Holds, lastN, Nat.sub_eq_zero_of_le w.bounded, List.drop_zero]

section Classify

variable [DecidableEq κ] (m : Nat) (key : ρ → κ)

/-- The rows whose key is not among the last `m` keys accepted before it. -/
def fresh (accepted : List κ) : List ρ → List ρ
  | [] => []
  | r :: rs =>
    if key r ∈ lastN m accepted then fresh accepted rs
    else r :: fresh (accepted ++ [key r]) rs

/-- The rows whose key is among the last `m` keys accepted before it. -/
def repeated (accepted : List κ) : List ρ → List ρ
  | [] => []
  | r :: rs =>
    if key r ∈ lastN m accepted then r :: repeated accepted rs
    else repeated (accepted ++ [key r]) rs

theorem mem_fresh_or_repeated {accepted : List κ} {rows : List ρ} {r : ρ} :
    r ∈ rows ↔ r ∈ fresh m key accepted rows ∨ r ∈ repeated m key accepted rows := by
  induction rows generalizing accepted with
  | nil => simp [fresh, repeated]
  | cons a rows ih =>
    simp only [fresh, repeated, List.mem_cons]
    split
    · rw [@ih accepted]
      simp only [List.mem_cons, or_left_comm]
    · rw [@ih (accepted ++ [key a])]
      simp only [List.mem_cons, or_assoc]

theorem fresh_append (accepted : List κ) (xs ys : List ρ) :
    fresh m key accepted (xs ++ ys) =
      fresh m key accepted xs ++
        fresh m key (accepted ++ (fresh m key accepted xs).map key) ys := by
  induction xs generalizing accepted with
  | nil => simp [fresh]
  | cons a xs ih =>
    simp only [List.cons_append, fresh]
    split
    · exact ih accepted
    · simp [ih]

/-- Rows with new and distinct keys all pass. -/
theorem fresh_of_nodup {accepted : List κ} {rows : List ρ}
    (h : (accepted ++ rows.map key).Nodup) : fresh m key accepted rows = rows := by
  induction rows generalizing accepted with
  | nil => rfl
  | cons r rows ih =>
    rw [List.map_cons, List.append_cons] at h
    have hnew : key r ∉ lastN m accepted := fun hmem =>
      List.disjoint_of_nodup_append (List.nodup_append.mp h).1 (List.mem_of_mem_drop hmem)
        (List.mem_singleton_self _)
    rw [fresh, if_neg hnew, ih h]

/-- While nothing is forgotten, the rows that pass are those of a new key. -/
theorem fresh_eq_filter {accepted : List κ} {rows : List ρ} {p : ρ → Bool}
    (hp : ∀ r ∈ rows, p r = true ↔ key r ∉ accepted) (h : (rows.map key).Nodup)
    (hroom : accepted.length + (rows.filter p).length ≤ m) :
    fresh m key accepted rows = rows.filter p := by
  induction rows generalizing accepted with
  | nil => rfl
  | cons r rows ih =>
    obtain ⟨hr, hrows⟩ := List.nodup_cons.mp h
    obtain ⟨hpr, hp⟩ := List.forall_mem_cons.mp hp
    have hall : lastN m accepted = accepted := by
      rw [lastN, Nat.sub_eq_zero_of_le (by omega), List.drop_zero]
    rw [fresh, hall]
    by_cases hmem : key r ∈ accepted
    · rw [List.filter_cons_of_neg fun hpos => hpr.mp hpos hmem] at hroom ⊢
      rw [if_pos hmem, ih hp hrows hroom]
    · rw [List.filter_cons_of_pos (hpr.mpr hmem)] at hroom ⊢
      have hlater : ∀ a ∈ rows, p a = true ↔ key a ∉ accepted ++ [key r] := by
        intro a ha
        have hne : key a ≠ key r := fun heq => hr (heq ▸ List.mem_map_of_mem ha)
        simp [hp a ha, hne]
      rw [if_neg hmem, ih hlater hrows (by simp at hroom ⊢; omega)]

omit [DecidableEq κ] in
theorem mem_lastN_append {m : Nat} {before ks : List κ} {k : κ} (h : k ∉ before) :
    k ∈ lastN m (before ++ ks) ↔ k ∈ lastN m ks := by
  have hkept : k ∉ before.drop (before.length + ks.length - m) := fun hk => h (List.mem_of_mem_drop hk)
  have hstart : before.length + ks.length - m - before.length = ks.length - m := by omega
  rw [lastN, lastN, List.length_append, List.drop_append, List.mem_append, hstart, or_iff_right hkept]

/-- Keys that no row has make no difference to the rows. -/
theorem fresh_before {before accepted : List κ} {rows : List ρ} (h : ∀ r ∈ rows, key r ∉ before) :
    fresh m key (before ++ accepted) rows = fresh m key accepted rows := by
  induction rows generalizing accepted with
  | nil => rfl
  | cons r rows ih =>
    obtain ⟨hr, hrows⟩ := List.forall_mem_cons.mp h
    simp only [fresh, mem_lastN_append hr, List.append_assoc, ih hrows]

theorem fresh_map {τ : Type v} (f : τ → ρ) (accepted : List κ) (xs : List τ) :
    fresh m key accepted (xs.map f) = (fresh m (key ∘ f) accepted xs).map f := by
  induction xs generalizing accepted with
  | nil => rfl
  | cons a xs ih =>
    simp only [List.map_cons, fresh, Function.comp_apply]
    split
    · exact ih accepted
    · rw [ih, List.map_cons]

end Classify

/-- A row offered under a key, with the verdict on it. -/
structure Entry (κ : Type u) (ρ : Type v) where
  key : κ
  row : ρ
  dropped : Bool

/-- The keys a log accepted. -/
def acceptedKeys (log : List (Entry κ ρ)) : List κ := (log.filter (!·.dropped)).map (·.key)

@[simp] theorem acceptedKeys_append (log log' : List (Entry κ ρ)) :
    acceptedKeys (log ++ log') = acceptedKeys log ++ acceptedKeys log' := by
  simp [acceptedKeys]

section Judge

variable [DecidableEq κ] (m : Nat)

/-- The log of some offers: a row is dropped when its key is among the last `m` keys accepted before it. -/
def judge (accepted : List κ) : List (κ × ρ) → List (Entry κ ρ)
  | [] => []
  | (k, r) :: offers =>
    if k ∈ lastN m accepted then ⟨k, r, true⟩ :: judge accepted offers
    else ⟨k, r, false⟩ :: judge (accepted ++ [k]) offers

theorem judge_offers (accepted : List κ) (offers : List (κ × ρ)) :
    (judge m accepted offers).map (fun e => (e.key, e.row)) = offers := by
  induction offers generalizing accepted with
  | nil => rfl
  | cons offer offers ih =>
    rw [judge]
    split <;> rw [List.map_cons, ih]

theorem judge_append (accepted : List κ) (xs ys : List (κ × ρ)) :
    judge m accepted (xs ++ ys) =
      judge m accepted xs ++ judge m (accepted ++ acceptedKeys (judge m accepted xs)) ys := by
  induction xs generalizing accepted with
  | nil => simp [judge, acceptedKeys]
  | cons offer xs ih =>
    rw [List.cons_append, judge, judge]
    split
    · rw [ih]
      simp [acceptedKeys]
    · rw [ih]
      simp [acceptedKeys]

/-- The verdict at any place of a log. -/
theorem judge_dropped {accepted : List κ} {offers : List (κ × ρ)} {before after : List (Entry κ ρ)}
    {e : Entry κ ρ} (h : judge m accepted offers = before ++ e :: after) :
    e.dropped = true ↔ e.key ∈ lastN m (accepted ++ acceptedKeys before) := by
  induction offers generalizing accepted before with
  | nil => simp [judge] at h
  | cons offer offers ih =>
    rw [judge] at h
    cases before with
    | nil =>
      split at h <;> obtain ⟨rfl, -⟩ := List.cons.inj h <;> simp_all [acceptedKeys]
    | cons first before =>
      split at h
      · obtain ⟨rfl, hrest⟩ := List.cons.inj h
        simpa [acceptedKeys] using ih hrest
      · obtain ⟨rfl, hrest⟩ := List.cons.inj h
        simpa [acceptedKeys] using ih hrest

/-- What a log lets through is what is fresh. -/
theorem judge_fresh (key : ρ → κ) (accepted : List κ) (rows : List ρ) :
    ((judge m accepted (rows.map fun r => (key r, r))).filter (!·.dropped)).map (·.row) =
      fresh m key accepted rows := by
  induction rows generalizing accepted with
  | nil => rfl
  | cons r rows ih =>
    rw [List.map_cons, judge, fresh]
    split
    · exact ih accepted
    · exact congrArg (r :: ·) (ih _)

theorem acceptedKeys_judge (key : ρ → κ) (accepted : List κ) (rows : List ρ) :
    acceptedKeys (judge m accepted (rows.map fun r => (key r, r))) =
      (fresh m key accepted rows).map key := by
  induction rows generalizing accepted with
  | nil => rfl
  | cons r rows ih =>
    rw [List.map_cons, judge, fresh]
    split
    · exact ih accepted
    · exact congrArg (key r :: ·) (ih _)

end Judge

end Window

end GridWitness.Library
