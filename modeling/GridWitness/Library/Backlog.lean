import Mathlib.Data.List.DropRight
import Mathlib.Data.List.Forall2
import Mathlib.Order.Lattice

universe u v w x

namespace GridWitness.Library

/-- A queue whose elements carry the time they entered it. -/
abbrev Backlog (α : Type u) (τ : Type v) := List (α × τ)

namespace Backlog

variable {α : Type u} {τ : Type v}

inductive Op (α : Type u) (τ : Type v)
  | append (items : List α) (time : τ)
  | peek (n : Nat)
  | commit (n : Nat)
  | count
  | prune (cutoff : τ) (cap : Nat)

inductive Answer (α : Type u)
  | done
  | items (items : List α)
  | number (n : Nat)

section Ops

variable [LinearOrder τ] (q : Backlog α τ)

/-- The elements not older than a cutoff, and of these the last ones only. -/
def newest (cutoff : τ) (cap : Nat) : Backlog α τ := (q.filter (cutoff ≤ ·.2)).rtake cap

def apply : Op α τ → Backlog α τ × Answer α
  | .append items time => (q ++ items.map (·, time), .done)
  | .peek n => (q, .items ((q.take n).map (·.1)))
  | .commit n => (q.drop n, .done)
  | .count => (q, .number q.length)
  | .prune cutoff cap =>
    (q.newest cutoff cap, .number (q.length - (q.newest cutoff cap).length))

end Ops

section Rel

variable {β : Type w} {R : β → α × τ → Prop} {ls : List β} {q : Backlog α τ}

theorem rtake_rel (h : List.Forall₂ R ls q) (n : Nat) : List.Forall₂ R (ls.rtake n) (q.rtake n) := by
  rw [List.rtake, List.rtake, h.length_eq]
  exact List.forall₂_drop _ h

theorem exists_rel (h : ∀ l ∈ ls, ∃ e, R l e) : ∃ q : Backlog α τ, List.Forall₂ R ls q := by
  induction ls with
  | nil => exact ⟨[], .nil⟩
  | cons l ls ih =>
    obtain ⟨e, he⟩ := h l List.mem_cons_self
    obtain ⟨q, hq⟩ := ih fun l hl => h l (List.mem_cons_of_mem _ hl)
    exact ⟨e :: q, .cons he hq⟩

theorem rtake_eq_self {l : List β} {n : Nat} (h : l.length ≤ n) : l.rtake n = l := by
  rw [List.rtake, Nat.sub_eq_zero_of_le h, List.drop_zero]

end Rel

end Backlog

section Simulation

variable {σ : Type u} {ο : Type v} {ρ : Type w} {ε : Type x}

/-- The calls of a list one after the other, with their answers; the first exception ends them. -/
def runCalls (call : σ → ο → Except ε (σ × ρ)) : σ → List ο → Except ε (σ × List ρ)
  | s, [] => .ok (s, [])
  | s, op :: ops => do
    let (s, answer) ← call s op
    let (s, answers) ← runCalls call s ops
    .ok (s, answer :: answers)

def runOps (apply : σ → ο → σ × ρ) : σ → List ο → σ × List ρ
  | s, [] => (s, [])
  | s, op :: ops =>
    let (s, answer) := apply s op
    let (s, answers) := runOps apply s ops
    (s, answer :: answers)

/-- Where each call answers as the abstract operation does and keeps the relation, so do all runs. -/
theorem runCalls_simulates {τ : Type*} {κ : Type*} {call : σ → ο → Except ε (σ × ρ)}
    {apply : τ → κ → τ × ρ} {f : ο → κ} {R : σ → τ → Prop}
    (step : ∀ s t op, R s t → ∃ s', call s op = .ok (s', (apply t (f op)).2) ∧ R s' (apply t (f op)).1)
    (ops : List ο) {s : σ} {t : τ} (h : R s t) :
    ∃ s', runCalls call s ops = .ok (s', (runOps apply t (ops.map f)).2) ∧
      R s' (runOps apply t (ops.map f)).1 := by
  induction ops generalizing s t with
  | nil => exact ⟨s, rfl, h⟩
  | cons op ops ih =>
    obtain ⟨s₁, hcall, h₁⟩ := step s t op h
    obtain ⟨s₂, hrun, h₂⟩ := ih h₁
    refine ⟨s₂, ?_, h₂⟩
    simp only [runCalls, hcall, bind, Except.bind, hrun]
    rfl

end Simulation

end GridWitness.Library
