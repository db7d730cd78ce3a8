import Mathlib.Data.List.Nodup
import Mathlib.Data.List.Pairwise

universe u v

namespace GridWitness.Library

/-- Named blocks of values. -/
abbrev Blocks (κ : Type u) (α : Type v) := List (κ × List α)

namespace Blocks

variable {κ : Type u} {α : Type v} (bs : Blocks κ α)

/-- The names of the blocks a set meets. -/
def touching [DecidableEq α] (s : List α) : List κ := (bs.filter fun b => b.2.any (· ∈ s)).map (·.1)

/-- All values of the blocks with one of some names. -/
def expand [DecidableEq κ] (names : List κ) : List α := (bs.filter fun b => b.1 ∈ names).flatMap (·.2)

/-- A set that holds each block whole or not at all. -/
def Saturated (s : List α) : Prop := ∀ b ∈ bs, (∀ a ∈ b.2, a ∈ s) ∨ ∀ a ∈ b.2, a ∉ s

instance [DecidableEq α] (s : List α) : Decidable (bs.Saturated s) :=
  inferInstanceAs (Decidable (∀ b ∈ bs, (∀ a ∈ b.2, a ∈ s) ∨ ∀ a ∈ b.2, a ∉ s))

variable {bs} {s : List α} {names : List κ} {a : α}

theorem mem_touching [DecidableEq α] {name : κ} : name ∈ bs.touching s ↔ ∃ b ∈ bs, b.1 = name ∧ ∃ a ∈ b.2, a ∈ s := by
  simp only [touching, List.mem_map, List.mem_filter, List.any_eq_true, decide_eq_true_eq]
  constructor
  · rintro ⟨b, ⟨hb, ha⟩, rfl⟩
    exact ⟨b, hb, rfl, ha⟩
  · rintro ⟨b, hb, rfl, ha⟩
    exact ⟨b, ⟨hb, ha⟩, rfl⟩

theorem mem_expand [DecidableEq κ] : a ∈ bs.expand names ↔ ∃ b ∈ bs, b.1 ∈ names ∧ a ∈ b.2 := by
  simp [expand, and_assoc]

variable [DecidableEq κ] [DecidableEq α]

/-- Where names are unique, a set expands to the blocks it meets. -/
theorem mem_expand_touching (hnames : (bs.map (·.1)).Nodup) :
    a ∈ bs.expand (bs.touching s) ↔ ∃ b ∈ bs, a ∈ b.2 ∧ ∃ c ∈ b.2, c ∈ s := by
  rw [mem_expand]
  constructor
  · rintro ⟨b, hb, hname, ha⟩
    obtain ⟨b', hb', heq, hc⟩ := mem_touching.mp hname
    obtain rfl : b' = b := List.inj_on_of_nodup_map hnames hb' hb heq
    exact ⟨b', hb, ha, hc⟩
  · rintro ⟨b, hb, ha, hc⟩
    exact ⟨b, hb, mem_touching.mpr ⟨b, hb, rfl, hc⟩, ha⟩

omit [DecidableEq α] in
/-- What blocks that do not overlap expand to is saturated. -/
theorem expand_saturated (hdisjoint : bs.Pairwise fun b c => b.2.Disjoint c.2) (names : List κ) :
    bs.Saturated (bs.expand names) := by
  have hsymm : Std.Symm fun b c : κ × List α => b.2.Disjoint c.2 :=
    ⟨fun _ _ h _ hc hb => h hb hc⟩
  intro b hb
  by_cases hname : b.1 ∈ names
  · exact Or.inl fun a ha => mem_expand.mpr ⟨b, hb, hname, ha⟩
  · refine Or.inr fun a ha hin => ?_
    obtain ⟨c, hc, hcname, hac⟩ := mem_expand.mp hin
    have hne : b ≠ c := fun heq => hname (heq ▸ hcname)
    exact hdisjoint.forall hb hc hne ha hac

end Blocks

end GridWitness.Library
