import Mathlib.Data.List.TakeWhile

namespace GridWitness.Library.Text

/-- Decided along the text, and not over all characters there are. -/
instance decidableForallMem (cs : List Char) (p : Char → Prop) [DecidablePred p] : Decidable (∀ c ∈ cs, p c) :=
  List.decidableBAll p cs

/-- The white space of Unicode: `str.isspace`, and `\s` in a pattern. -/
def isSpace (c : Char) : Bool :=
  (9 ≤ c.toNat && c.toNat ≤ 13) || (28 ≤ c.toNat && c.toNat ≤ 32) ||
    (0x2000 ≤ c.toNat && c.toNat ≤ 0x200A) ||
    [0x85, 0xA0, 0x1680, 0x2028, 0x2029, 0x202F, 0x205F, 0x3000].contains c.toNat

theorem toLower_space {c : Char} (h : isSpace c) : c.toLower = c := by
  refine dif_neg fun hupper => ?_
  have hlow : 65 ≤ c.toNat := UInt32.le_iff_toNat_le.mp hupper.1
  have hhigh : c.toNat ≤ 90 := UInt32.le_iff_toNat_le.mp hupper.2
  simp [isSpace] at h
  omega

/-- `str.strip()`. -/
def strip (cs : List Char) : List Char :=
  ((cs.dropWhile isSpace).reverse.dropWhile isSpace).reverse

/-- Only white space is cut off, at either end. -/
theorem strip_split (cs : List Char) :
    ∃ front back, cs = front ++ strip cs ++ back ∧ (∀ c ∈ front, isSpace c) ∧ ∀ c ∈ back, isSpace c := by
  refine ⟨cs.takeWhile isSpace, ((cs.dropWhile isSpace).reverse.takeWhile isSpace).reverse, ?_, ?_, ?_⟩
  · rw [strip, List.append_assoc, ← List.reverse_append, List.takeWhile_append_dropWhile,
      List.reverse_reverse, List.takeWhile_append_dropWhile]
  · exact fun c hc => List.mem_takeWhile_imp hc
  · exact fun c hc => List.mem_takeWhile_imp (List.mem_reverse.mp hc)

theorem mem_of_mem_strip {cs : List Char} {c : Char} (h : c ∈ strip cs) : c ∈ cs := by
  obtain ⟨front, back, hsplit, -⟩ := strip_split cs
  rw [hsplit]
  exact List.mem_append_left _ (List.mem_append_right _ h)

/-- What stands from a mark on is kept when neither the mark nor the last character is white space. -/
theorem strip_keeps (front : List Char) {mark : Char} {tail : List Char} (hmark : ¬ isSpace mark)
    (hlast : ∀ c, (mark :: tail).getLast? = some c → ¬ isSpace c) :
    ∃ kept, strip (front ++ mark :: tail) = kept ++ mark :: tail := by
  have hfront : (front ++ mark :: tail).dropWhile isSpace = front.dropWhile isSpace ++ mark :: tail := by
    rw [List.dropWhile_append, List.dropWhile_cons_of_neg hmark]
    cases front.dropWhile isSpace <;> rfl
  refine ⟨front.dropWhile isSpace, ?_⟩
  cases hrev : (mark :: tail).reverse with
  | nil => simp at hrev
  | cons last init =>
    have hc : ¬ isSpace last := hlast last (by rw [← List.head?_reverse, hrev, List.head?_cons])
    rw [strip, hfront, List.reverse_append, hrev, List.cons_append, List.dropWhile_cons_of_neg hc,
      ← List.cons_append, ← hrev, ← List.reverse_append, List.reverse_reverse]

/-- A line boundary of `str.splitlines`. -/
def isLineBreak (c : Char) : Bool :=
  (10 ≤ c.toNat && c.toNat ≤ 13) || (28 ≤ c.toNat && c.toNat ≤ 30) ||
    [0x85, 0x2028, 0x2029].contains c.toNat

/-- `str.splitlines()`; `\r\n` is one boundary. -/
def splitlines : List Char → List (List Char)
  | [] => []
  | '\r' :: '\n' :: cs => [] :: splitlines cs
  | c :: cs =>
    if isLineBreak c then [] :: splitlines cs
    else
      match splitlines cs with
      | [] => [[c]]
      | line :: lines => (c :: line) :: lines

/-- The two ends of a line on the platforms. -/
def LineEnd (ending : List Char) : Prop := ending = ['\n'] ∨ ending = ['\r', '\n']

theorem splitlines_line {line ending : List Char} (hline : ∀ c ∈ line, isLineBreak c = false)
    (hending : LineEnd ending) (cs : List Char) :
    splitlines (line ++ (ending ++ cs)) = line :: splitlines cs := by
  induction line with
  | nil =>
    rcases hending with rfl | rfl
    · rw [List.nil_append, List.singleton_append, splitlines, if_pos (by decide)]
      simp
    · rfl
  | cons c line ih =>
    obtain ⟨hc, hline⟩ := List.forall_mem_cons.mp hline
    rw [List.cons_append, splitlines, if_neg (by rw [hc]; exact Bool.false_ne_true), ih hline]
    rintro rest rfl
    exact absurd hc (by decide)

/-- Lines written with their ends are split back. -/
theorem splitlines_flatMap {lines : List (List Char)} {ending : List Char}
    (hlines : ∀ line ∈ lines, ∀ c ∈ line, isLineBreak c = false) (hending : LineEnd ending) :
    splitlines (lines.flatMap (· ++ ending)) = lines := by
  induction lines with
  | nil => rfl
  | cons line lines ih =>
    obtain ⟨hline, hrest⟩ := List.forall_mem_cons.mp hlines
    rw [List.flatMap_cons, List.append_assoc, splitlines_line hline hending, ih hrest]

theorem mem_intercalate {α : Type} {between : List α} {lines : List (List α)} {c : α}
    (h : c ∈ between.intercalate lines) : c ∈ between ∨ ∃ line ∈ lines, c ∈ line := by
  induction lines with
  | nil => cases h
  | cons line lines ih =>
    cases lines with
    | nil =>
      rw [List.intercalate_singleton] at h
      exact Or.inr ⟨line, List.mem_cons_self, h⟩
    | cons next lines =>
      rw [List.intercalate_cons_cons, List.append_assoc] at h
      rcases List.mem_append.mp h with h | h
      · exact Or.inr ⟨line, List.mem_cons_self, h⟩
      rcases List.mem_append.mp h with h | h
      · exact Or.inl h
      · obtain h | ⟨other, hother, h⟩ := ih h
        · exact Or.inl h
        · exact Or.inr ⟨other, List.mem_cons_of_mem _ hother, h⟩

/-- Text without white space is left as it is. -/
theorem strip_eq_self {cs : List Char} (h : ∀ c ∈ cs, isSpace c = false) : strip cs = cs := by
  have hkeep : ∀ cs : List Char, (∀ c ∈ cs, isSpace c = false) → cs.dropWhile isSpace = cs := by
    intro cs hcs
    cases cs with
    | nil => rfl
    | cons c cs => exact List.dropWhile_cons_of_neg (by simp [hcs c List.mem_cons_self])
  rw [strip, hkeep cs h, hkeep _ fun c hc => h c (List.mem_reverse.mp hc), List.reverse_reverse]

end GridWitness.Library.Text
