import Mathlib.Data.List.Basic

universe u

namespace GridWitness.Library

/-- What a character does outside a string. -/
inductive Nesting.Role
  | plain | opens | closes | quote | stray
  deriving DecidableEq

/-- How a text marks strings and nesting: the roles of its characters outside a string, the
character that escapes in one, and what may follow it. -/
structure Nesting (α : Type u) where
  role : α → Nesting.Role
  escapes : α → Bool
  escaped : α → Bool

namespace Nesting

/-- Where the reader of a text stands, with the number of open brackets. -/
inductive Place
  | outside (depth : Nat)
  | inside (depth : Nat)
  | escaped (depth : Nat)

/-- The same place one bracket further in. -/
def Place.deepen : Place → Place
  | .outside d => .outside (d + 1)
  | .inside d => .inside (d + 1)
  | .escaped d => .escaped (d + 1)

variable {α : Type u} (N : Nesting α)

def step : Place → α → Option Place
  | .outside d, c =>
    match N.role c, d with
    | .plain, d => some (.outside d)
    | .opens, d => some (.outside (d + 1))
    | .closes, d + 1 => some (.outside d)
    | .quote, d => some (.inside d)
    | .closes, 0 | .stray, _ => none
  | .inside d, c =>
    if N.role c = .quote then some (.outside d)
    else if N.escapes c then some (.escaped d)
    else some (.inside d)
  | .escaped d, c => if N.escaped c then some (.inside d) else none

def scan (p : Place) (cs : List α) : Option Place := cs.foldlM N.step p

/-- The text leaves its reader as deep as it found it. -/
def Balanced (cs : List α) : Prop := ∀ d, N.scan (.outside d) cs = some (.outside d)

/-- The content of a string. -/
def Content (cs : List α) : Prop := ∀ d, N.scan (.inside d) cs = some (.inside d)

/-- A reader of a text has come to the rest of it over balanced text. -/
def Passes (cs rest : List α) : Prop := ∃ front, cs = front ++ rest ∧ N.Balanced front

variable {N} {p q : Place} {c o : α} {cs ds rest : List α}

@[simp] theorem scan_nil : N.scan p [] = some p := rfl

@[simp] theorem scan_cons : N.scan p (c :: cs) = (N.step p c).bind (N.scan · cs) := rfl

theorem scan_append : N.scan p (cs ++ ds) = (N.scan p cs).bind (N.scan · ds) := by
  simp only [scan, List.foldlM_append]
  rfl

theorem step_deepen (h : N.step p c = some q) : N.step p.deepen c = some q.deepen := by
  cases p with
  | outside d =>
    simp only [step, Place.deepen] at h ⊢
    cases hrole : N.role c with
    | closes =>
      cases d with
      | zero => simp [hrole] at h
      | succ d =>
        simp only [hrole, Option.some.injEq] at h ⊢
        subst h
        rfl
    | stray => simp [hrole] at h
    | _ =>
      simp only [hrole, Option.some.injEq] at h ⊢
      subst h
      rfl
  | inside d =>
    simp only [step, Place.deepen] at h ⊢
    split_ifs at h ⊢ <;> cases h <;> rfl
  | escaped d =>
    simp only [step, Place.deepen] at h ⊢
    split_ifs at h ⊢
    cases h
    rfl

/-- What can be read can be read one bracket further in. -/
theorem scan_deepen (h : N.scan p cs = some q) : N.scan p.deepen cs = some q.deepen := by
  induction cs generalizing p with
  | nil =>
    cases h
    rfl
  | cons c cs ih =>
    rw [scan_cons, Option.bind_eq_some_iff] at h
    obtain ⟨r, hstep, hrest⟩ := h
    rw [scan_cons, step_deepen hstep]
    exact ih hrest

theorem Balanced.nil : N.Balanced [] := fun _ => rfl

theorem Balanced.append (h : N.Balanced cs) (h' : N.Balanced ds) : N.Balanced (cs ++ ds) := by
  intro d
  rw [scan_append, h d]
  exact h' d

theorem Balanced.cons_plain (hc : N.role c = .plain) (h : N.Balanced cs) : N.Balanced (c :: cs) := by
  intro d
  simp only [scan_cons, step, hc]
  exact h d

theorem balanced_of_plain (h : ∀ c ∈ cs, N.role c = .plain) : N.Balanced cs := by
  induction cs with
  | nil => exact .nil
  | cons c cs ih =>
    exact .cons_plain (h c List.mem_cons_self) (ih fun c hc => h c (List.mem_cons_of_mem _ hc))

theorem Balanced.bracketed (ho : N.role o = .opens) (hc : N.role c = .closes) (h : N.Balanced cs) :
    N.Balanced (o :: (cs ++ [c])) := by
  intro d
  simp only [scan_cons, step, ho, Option.bind_some, scan_append, h (d + 1), hc, scan_nil]

theorem Content.nil : N.Content [] := fun _ => rfl

theorem Content.append (h : N.Content cs) (h' : N.Content ds) : N.Content (cs ++ ds) := by
  intro d
  rw [scan_append, h d]
  exact h' d

theorem content_singleton (hquote : N.role c ≠ .quote) (hescapes : N.escapes c = false) :
    N.Content [c] := by
  intro d
  simp [step, hquote, hescapes]

theorem content_escape (hquote : N.role o ≠ .quote) (hescapes : N.escapes o = true)
    (hescaped : N.escaped c = true) : N.Content [o, c] := by
  intro d
  simp [step, hquote, hescapes, hescaped]

theorem Content.quoted (ho : N.role o = .quote) (hc : N.role c = .quote) (h : N.Content cs) :
    N.Balanced (o :: (cs ++ [c])) := by
  intro d
  simp only [scan_cons, step, ho, Option.bind_some, scan_append, h d, hc, scan_nil, if_true]

theorem Passes.trans (h : N.Passes cs ds) (h' : N.Passes ds rest) : N.Passes cs rest := by
  obtain ⟨front, rfl, hfront⟩ := h
  obtain ⟨back, rfl, hback⟩ := h'
  exact ⟨front ++ back, (List.append_assoc _ _ _).symm, hfront.append hback⟩

theorem Passes.plain (hc : N.role c = .plain) : N.Passes (c :: cs) cs :=
  ⟨[c], rfl, .cons_plain hc .nil⟩

theorem Passes.bracketed (ho : N.role o = .opens) (hc : N.role c = .closes)
    (h : N.Passes cs (c :: rest)) : N.Passes (o :: cs) rest := by
  obtain ⟨front, rfl, hfront⟩ := h
  exact ⟨o :: (front ++ [c]), by simp, hfront.bracketed ho hc⟩

theorem Passes.quoted (ho : N.role o = .quote) (hc : N.role c = .quote)
    (h : ∃ front, cs = front ++ c :: rest ∧ N.Content front) : N.Passes (o :: cs) rest := by
  obtain ⟨front, rfl, hfront⟩ := h
  exact ⟨o :: (front ++ [c]), by simp, hfront.quoted ho hc⟩

/-- A text in brackets that breaks off leaves a bracket open. -/
theorem open_of_append (ho : N.role o = .opens) (h : N.Balanced cs) {front back : List α}
    (htext : front ++ back = o :: (cs ++ [c])) (hfront : front ≠ []) (hback : back ≠ []) :
    ∃ p, N.scan (.outside 0) front = some (Place.deepen p) := by
  obtain ⟨back, last, rfl⟩ : ∃ b l, back = b ++ [l] :=
    ⟨back.dropLast, back.getLast hback, (List.dropLast_append_getLast hback).symm⟩
  cases front with
  | nil => exact absurd rfl hfront
  | cons f front =>
    rw [List.cons_append, List.cons.injEq, ← List.append_assoc] at htext
    obtain ⟨rfl, htext⟩ := htext
    obtain ⟨rfl, -⟩ := List.append_inj' htext rfl
    have hbody := h 0
    rw [scan_append, Option.bind_eq_some_iff] at hbody
    obtain ⟨p, hp, -⟩ := hbody
    refine ⟨p, ?_⟩
    simp only [scan_cons, step, ho, Option.bind_some]
    exact scan_deepen hp

/-- Where a bracket is open, no balanced text leads out of it that starts with a bracket, a quote
and a stray character. -/
theorem scan_deepen_ne (ho : N.role o = .opens) (hescapes : N.escapes o = false)
    (hescaped : N.escaped o = false) {quote stray : α} (hquote : N.role quote = .quote)
    (hstray : N.role stray = .stray) (h : N.Balanced (o :: quote :: stray :: cs)) (p : Place) :
    N.scan p.deepen (o :: quote :: stray :: cs) ≠ some (.outside 0) := by
  cases p with
  | outside d =>
    rw [Place.deepen, h (d + 1)]
    simp
  | inside d => simp [Place.deepen, step, ho, hescapes, hquote, hstray]
  | escaped d => simp [Place.deepen, step, hescaped]

end Nesting

end GridWitness.Library
