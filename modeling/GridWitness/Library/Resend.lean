import Mathlib.Data.List.Nodup

universe u v

namespace GridWitness.Library.Resend

variable {σ : Type u} {α : Type v}

section First

variable [BEq α] [LawfulBEq α] {l ys : List α}

theorem nodup_eraseDups : ∀ l : List α, l.eraseDups.Nodup
  | [] => by simp
  | a :: l => by
    rw [List.eraseDups_cons, List.nodup_cons, List.mem_eraseDups]
    exact ⟨by simp, nodup_eraseDups (l.filter fun b => !b == a)⟩
  termination_by l => l.length
  decreasing_by exact Nat.lt_succ_of_le (List.length_filter_le _ l)

theorem eraseDups_of_nodup (h : l.Nodup) : l.eraseDups = l := by
  induction l with
  | nil => rfl
  | cons a l ih =>
    obtain ⟨ha, hl⟩ := List.nodup_cons.mp h
    have hkeep : l.filter (fun b => !b == a) = l := List.filter_eq_self.mpr fun b hb => by
      have hne : b ≠ a := fun heq => ha (heq ▸ hb)
      simpa using hne
    rw [List.eraseDups_cons, hkeep, ih hl]

/-- Distinct items that arrive after others are new where they are not among them. -/
theorem eraseDups_append_nodup {p : α → Bool} (hp : ∀ y ∈ ys, p y = true ↔ y ∉ l)
    (h : ys.Nodup) : (l ++ ys).eraseDups = l.eraseDups ++ ys.filter p := by
  have hnew : ys.removeAll l = ys.filter p := by
    refine List.filter_congr fun y hy => Bool.eq_iff_iff.mpr ?_
    rw [hp y hy]
    simp
  rw [List.eraseDups_append, hnew, eraseDups_of_nodup (h.filter _)]

end First

section Stretch

variable {c : List σ} {f : σ → Option α} {d k m : Nat}

theorem take_resend : c.take m ++ (c.drop m).take (d + k - m) = c.take (max m (d + k)) := by
  rw [← List.take_add]
  congr 1
  omega

/-- Of a stretch sent again that starts no later than what has arrived, new is what lies beyond. -/
theorem filter_resend {p : α → Bool}
    (hp : ∀ a ∈ c.filterMap f, p a = true ↔ a ∉ (c.take m).filterMap f)
    (hnodup : (c.filterMap f).Nodup) (hle : d ≤ m) :
    (((c.drop d).take k).filterMap f).filter p = ((c.drop m).take (d + k - m)).filterMap f := by
  have hold : ∀ n, d + n ≤ m → (((c.drop d).take n).filterMap f).filter p = [] := by
    intro n hn
    rw [List.filter_eq_nil_iff]
    intro a ha
    have htake : (c.drop d).take n = (c.take (d + n)).drop d := by
      rw [List.drop_take, Nat.add_sub_cancel_left]
    have hmem : a ∈ (c.take m).filterMap f := by
      refine ((?_ : ((c.drop d).take n).Sublist (c.take m)).filterMap f).subset ha
      rw [htake]
      exact (List.drop_sublist d _).trans (List.take_sublist_take_left hn)
    rw [hp a (((List.take_sublist m c).filterMap f).subset hmem), not_not]
    exact hmem
  by_cases h : d + k ≤ m
  · rw [hold k h, Nat.sub_eq_zero_of_le h, List.take_zero]
    rfl
  · have hsplit : (c.drop d).take k = (c.drop d).take (m - d) ++ (c.drop m).take (d + k - m) := by
      have hk : k = (m - d) + (d + k - m) := by omega
      conv_lhs => rw [hk]
      rw [List.take_add, List.drop_drop, Nat.add_sub_cancel' hle]
    have hnew : ∀ a ∈ ((c.drop m).take (d + k - m)).filterMap f, p a = true := by
      intro a ha
      have hbeyond := ((List.take_sublist (d + k - m) (c.drop m)).filterMap f).subset ha
      refine (hp a (((List.drop_sublist m c).filterMap f).subset hbeyond)).mpr fun hmem => ?_
      rw [← List.take_append_drop m c, List.filterMap_append] at hnodup
      exact List.disjoint_of_nodup_append hnodup hmem hbeyond
    rw [hsplit, List.filterMap_append, List.filter_append, hold _ (by omega), List.nil_append]
    exact List.filter_eq_self.mpr hnew

end Stretch

end GridWitness.Library.Resend
