import Mathlib.Data.List.Basic

namespace GridWitness.Library

/-- A regular expression without repetition, over single characters and the two anchors. -/
inductive Pattern
  | one (allowed : Char → Bool)
  | start
  | stop
  | seq (p q : Pattern)
  | alt (p q : Pattern)
  | opt (p : Pattern)

namespace Pattern

/-- What is left of a text, and whether that is all of it. -/
structure Cursor where
  first : Bool
  rest : List Char

theorem Cursor.eq_mk {x : Cursor} {first : Bool} (h : x.first = first) : x = ⟨first, x.rest⟩ := by
  rw [← h]

/-- The ends of the matches from a cursor, in the order a backtracking matcher tries them. -/
def ends : Pattern → Cursor → List Cursor
  | one _, ⟨_, []⟩ => []
  | one allowed, ⟨_, c :: cs⟩ => if allowed c then [⟨false, cs⟩] else []
  | start, x => if x.first then [x] else []
  | stop, x => if x.rest = [] ∨ x.rest = ['\n'] then [x] else []
  | seq p q, x => (p.ends x).flatMap q.ends
  | alt p q, x => p.ends x ++ q.ends x
  | opt p, x => p.ends x ++ [x]

def searchFrom (p : Pattern) : Bool → List Char → Bool
  | first, [] => !(p.ends ⟨first, []⟩).isEmpty
  | first, c :: cs => !(p.ends ⟨first, c :: cs⟩).isEmpty || p.searchFrom false cs

/-- `re.search`: the pattern matches somewhere. -/
def search (p : Pattern) (text : List Char) : Bool := p.searchFrom true text

/-- The pattern matches a word, which may stand first in its text, with something after it. -/
def Matches : Pattern → Bool → List Char → List Char → Prop
  | one allowed, _, word, _ => ∃ c, word = [c] ∧ allowed c
  | start, first, word, _ => word = [] ∧ first
  | stop, _, word, after => word = [] ∧ (after = [] ∨ after = ['\n'])
  | seq p q, first, word, after =>
    ∃ u v, word = u ++ v ∧ p.Matches first u (v ++ after) ∧ q.Matches (first && u.isEmpty) v after
  | alt p q, first, word, after => p.Matches first word after ∨ q.Matches first word after
  | opt p, first, word, after => p.Matches first word after ∨ word = []

/-- The matcher ends where the pattern matches what it has read. -/
theorem mem_ends {p : Pattern} {first : Bool} {text : List Char} {x : Cursor} :
    x ∈ p.ends ⟨first, text⟩ ↔
      ∃ word, text = word ++ x.rest ∧ x.first = (first && word.isEmpty) ∧ p.Matches first word x.rest := by
  induction p generalizing first text x with
  | one allowed =>
    cases text with
    | nil => simp [ends, Matches]
    | cons c cs =>
      by_cases hallowed : allowed c = true
      · rw [ends, if_pos hallowed, List.mem_singleton]
        constructor
        · rintro rfl
          exact ⟨[c], rfl, (Bool.and_false _).symm, c, rfl, hallowed⟩
        · rintro ⟨word, htext, hfirst, d, rfl, -⟩
          obtain ⟨rfl, rfl⟩ := List.cons_eq_cons.mp htext
          rw [List.isEmpty_cons, Bool.and_false] at hfirst
          exact x.eq_mk hfirst
      · rw [ends, if_neg hallowed]
        refine iff_of_false List.not_mem_nil ?_
        rintro ⟨word, htext, -, d, rfl, hd⟩
        exact hallowed ((List.cons_eq_cons.mp htext).1 ▸ hd)
  | start =>
    cases first with
    | false => simp [ends, Matches]
    | true =>
      simp only [ends, if_true, List.mem_singleton, Matches, Bool.true_and]
      constructor
      · rintro rfl
        exact ⟨[], rfl, rfl, rfl, trivial⟩
      · rintro ⟨word, rfl, hfirst, rfl, -⟩
        exact x.eq_mk hfirst
  | stop =>
    simp only [ends, Matches]
    split
    next hstop =>
      rw [List.mem_singleton]
      constructor
      · rintro rfl
        exact ⟨[], rfl, (Bool.and_true _).symm, rfl, hstop⟩
      · rintro ⟨word, rfl, hfirst, rfl, -⟩
        rw [List.isEmpty_nil, Bool.and_true] at hfirst
        exact x.eq_mk hfirst
    next hstop =>
      refine iff_of_false List.not_mem_nil ?_
      rintro ⟨word, rfl, -, rfl, hafter⟩
      exact hstop hafter
  | seq p q ihp ihq =>
    have hempty : ∀ u v : List Char, (u ++ v).isEmpty = (u.isEmpty && v.isEmpty) := fun u v => by
      cases u <;> rfl
    rw [ends, List.mem_flatMap]
    constructor
    · rintro ⟨y, hy, hx⟩
      obtain ⟨u, rfl, hfirst, hp⟩ := ihp.mp hy
      obtain ⟨v, hrest, hlast, hq⟩ := ihq.mp hx
      rw [hrest] at hp ⊢
      rw [hfirst] at hlast hq
      refine ⟨u ++ v, (List.append_assoc _ _ _).symm, ?_, u, v, rfl, hp, hq⟩
      rw [hlast, Bool.and_assoc, hempty]
    · rintro ⟨word, rfl, hlast, u, v, rfl, hp, hq⟩
      refine ⟨⟨first && u.isEmpty, v ++ x.rest⟩, ihp.mpr ⟨u, ?_, rfl, hp⟩, ihq.mpr ⟨v, rfl, ?_, hq⟩⟩
      · exact List.append_assoc _ _ _
      · rw [hlast, hempty, Bool.and_assoc]
  | alt p q ihp ihq =>
    rw [ends, List.mem_append, ihp, ihq]
    simp only [Matches, and_or_left, exists_or]
  | opt p ih =>
    rw [ends, List.mem_append, ih, List.mem_singleton]
    simp only [Matches, and_or_left, exists_or]
    refine or_congr_right ⟨?_, ?_⟩
    · rintro rfl
      exact ⟨[], rfl, (Bool.and_true _).symm, rfl⟩
    · rintro ⟨word, rfl, hfirst, rfl⟩
      rw [List.isEmpty_nil, Bool.and_true] at hfirst
      exact x.eq_mk hfirst

theorem ends_isEmpty {p : Pattern} {first : Bool} {text : List Char} :
    (!(p.ends ⟨first, text⟩).isEmpty) = true ↔
      ∃ word after, text = word ++ after ∧ p.Matches first word after := by
  rw [Bool.not_eq_true', List.isEmpty_eq_false_iff_exists_mem]
  constructor
  · rintro ⟨x, hx⟩
    obtain ⟨word, htext, -, hmatch⟩ := mem_ends.mp hx
    exact ⟨word, x.rest, htext, hmatch⟩
  · rintro ⟨word, after, htext, hmatch⟩
    exact ⟨⟨first && word.isEmpty, after⟩, mem_ends.mpr ⟨word, htext, rfl, hmatch⟩⟩

theorem searchFrom_iff {p : Pattern} {first : Bool} {text : List Char} :
    p.searchFrom first text ↔
      ∃ before word after, text = before ++ (word ++ after) ∧
        p.Matches (first && before.isEmpty) word after := by
  induction text generalizing first with
  | nil =>
    rw [searchFrom, ends_isEmpty]
    constructor
    · rintro ⟨word, after, htext, hmatch⟩
      exact ⟨[], word, after, htext, by rwa [List.isEmpty_nil, Bool.and_true]⟩
    · rintro ⟨before, word, after, htext, hmatch⟩
      obtain ⟨rfl, -⟩ := List.append_eq_nil_iff.mp htext.symm
      exact ⟨word, after, htext, by rwa [List.isEmpty_nil, Bool.and_true] at hmatch⟩
  | cons c cs ih =>
    rw [searchFrom, Bool.or_eq_true, ends_isEmpty, ih]
    constructor
    · rintro (⟨word, after, htext, hmatch⟩ | ⟨before, word, after, rfl, hmatch⟩)
      · exact ⟨[], word, after, htext, by rwa [List.isEmpty_nil, Bool.and_true]⟩
      · exact ⟨c :: before, word, after, rfl, by simpa using hmatch⟩
    · rintro ⟨before, word, after, htext, hmatch⟩
      cases before with
      | nil => exact Or.inl ⟨word, after, htext, by simpa using hmatch⟩
      | cons d before =>
        obtain ⟨rfl, rfl⟩ := List.cons_eq_cons.mp htext
        exact Or.inr ⟨before, word, after, rfl, by simpa using hmatch⟩

/-- A search succeeds when a word of the text matches where it stands. -/
theorem search_iff {p : Pattern} {text : List Char} :
    p.search text ↔
      ∃ before word after, text = before ++ (word ++ after) ∧ p.Matches before.isEmpty word after := by
  rw [search, searchFrom_iff]
  simp only [Bool.true_and]

/-- The pattern has no anchor. -/
def plain : Pattern → Bool
  | one _ => true
  | start => false
  | stop => false
  | seq p q => p.plain && q.plain
  | alt p q => p.plain && q.plain
  | opt p => p.plain

/-- Without anchors a word is a match wherever it stands. -/
theorem matches_plain {p : Pattern} (h : p.plain) {first first' : Bool} {word after after' : List Char}
    (hmatch : p.Matches first word after) : p.Matches first' word after' := by
  induction p generalizing first first' word after after' with
  | one allowed => exact hmatch
  | start => cases h
  | stop => cases h
  | seq p q ihp ihq =>
    obtain ⟨hp, hq⟩ := Bool.and_eq_true_iff.mp h
    obtain ⟨u, v, hword, hu, hv⟩ := hmatch
    exact ⟨u, v, hword, ihp hp hu, ihq hq hv⟩
  | alt p q ihp ihq =>
    obtain ⟨hp, hq⟩ := Bool.and_eq_true_iff.mp h
    exact hmatch.imp (ihp hp) (ihq hq)
  | opt p ih => exact hmatch.imp_left (ih h)

end Pattern

end GridWitness.Library
