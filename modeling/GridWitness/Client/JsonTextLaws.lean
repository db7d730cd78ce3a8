import GridWitness.Client.JsonText
import GridWitness.Library.Dict
import Mathlib.Data.List.TakeWhile

namespace GridWitness.Client

open Server Library JsonText

namespace JsonText

section Strings

variable {c : Char} {cs rest : List Char} {us : List Nat} {n u : Nat}

theorem hexValue_digitChar : ∀ d < 16, hexValue (Nat.digitChar d) = some d := by decide

theorem lookup_escapes : ∀ p ∈ escapes, unescapes.lookup p.2 = some p.1 ∧ p.2 ≠ 'u' := by decide

theorem small_of_escapes {letter : Char} (h : escapes.lookup c = some letter) : c.toNat < 65536 := by
  have hsmall : ∀ p ∈ escapes, p.1.toNat < 65536 := by decide
  exact hsmall _ (mem_of_lookup h)

theorem units_short {letter : Char} (h : escapes.lookup c = some letter) :
    units (n + 1) ('\\' :: letter :: rest) =
      (units n rest).map fun (us, cs) => (c.toNat :: us, cs) := by
  obtain ⟨hletter, hu⟩ := lookup_escapes _ (mem_of_lookup h)
  have hread : unescape (letter :: rest) = some (c.toNat, rest) := by simp_all [unescape]
  simp only [units, hread, bind, Option.bind]
  cases units n rest <;> rfl

theorem units_hexEscape (hu : u < 65536) :
    units (n + 1) (hexEscape u ++ rest) = (units n rest).map fun (us, cs) => (u :: us, cs) := by
  have hvalue : 4096 * (u / 4096) + 256 * (u / 256 % 16) + 16 * (u / 16 % 16) + u % 16 = u := by
    omega
  simp only [hexEscape, List.cons_append, List.nil_append, units, unescape,
    hexValue_digitChar (u / 4096) (by omega), hexValue_digitChar _ (Nat.mod_lt _ (by decide))]
  simp only [bind, Option.bind, hvalue]
  cases units n rest <;> rfl

theorem units_printable (h : escapes.lookup c = none) (hc : 32 ≤ c.toNat) :
    units (n + 1) (c :: rest) = (units n rest).map fun (us, cs) => (c.toNat :: us, cs) := by
  have hquote : c ≠ '"' := by
    rintro rfl
    revert h
    decide
  have hescape : c ≠ '\\' := by
    rintro rfl
    revert h
    decide
  simp only [units, if_neg (Nat.not_lt.mpr hc), bind, Option.bind]
  cases units n rest <;> rfl

/-- The text is read as these units, in as many steps at most as it has characters. -/
def Reads (text : List Char) (us : List Nat) : Prop :=
  ∀ n rest, text.length ≤ n → ∃ m, n ≤ m + text.length ∧
    units n (text ++ rest) = (units m rest).map fun (vs, cs) => (us ++ vs, cs)

theorem reads_nil : Reads [] [] := fun n rest _ => ⟨n, Nat.le_refl n, by simp⟩

theorem Reads.append {text text' : List Char} {us' : List Nat} (h : Reads text us)
    (h' : Reads text' us') : Reads (text ++ text') (us ++ us') := by
  intro n rest hn
  rw [List.length_append] at hn ⊢
  obtain ⟨m, hm, hread⟩ := h n (text' ++ rest) (by omega)
  obtain ⟨k, hk, hread'⟩ := h' m rest (by omega)
  refine ⟨k, by omega, ?_⟩
  rw [List.append_assoc, hread, hread', Option.map_map]
  refine congrArg (Option.map · _) (funext fun (vs, cs) => ?_)
  simp

theorem Reads.flatMap {α : Type} {f : α → List Char} {g : α → List Nat} {as : List α}
    (h : ∀ a ∈ as, Reads (f a) (g a)) : Reads (as.flatMap f) (as.flatMap g) := by
  induction as with
  | nil => exact reads_nil
  | cons a as ih =>
    exact (h a List.mem_cons_self).append (ih fun a ha => h a (List.mem_cons_of_mem _ ha))

theorem reads_of_step {text : List Char} (htext : text ≠ [])
    (h : ∀ n rest, units (n + 1) (text ++ rest) =
      (units n rest).map fun (us, cs) => (u :: us, cs)) : Reads text [u] := by
  intro n rest hn
  have hpos := List.length_pos_iff.mpr htext
  obtain ⟨n, rfl⟩ := Nat.exists_eq_add_one_of_ne_zero (show n ≠ 0 by omega)
  exact ⟨n, by omega, h n rest⟩

theorem codeUnits_lt : ∀ u ∈ codeUnits c, u < 65536 := by
  have hvalid : c.toNat < 55296 ∨ 57343 < c.toNat ∧ c.toNat < 1114112 := c.valid
  rw [codeUnits]
  split
  · simpa
  · simp only [List.mem_cons, List.not_mem_nil, or_false]
    omega

theorem reads_escape : Reads (escape c) (codeUnits c) := by
  rw [escape]
  cases hlookup : escapes.lookup c with
  | some letter =>
    have hunits : codeUnits c = [c.toNat] := if_pos (small_of_escapes hlookup)
    rw [hunits]
    exact reads_of_step (List.cons_ne_nil _ _) fun n rest => units_short hlookup
  | none =>
    simp only
    split
    · next hprint =>
      have hunits : codeUnits c = [c.toNat] := if_pos (by omega)
      rw [hunits]
      exact reads_of_step (List.cons_ne_nil _ _) fun n rest => units_printable hlookup hprint.1
    · have h := Reads.flatMap (f := hexEscape) (g := fun u => [u]) fun u hu =>
        reads_of_step (List.cons_ne_nil _ _) fun n rest => units_hexEscape (codeUnits_lt (c := c) u hu)
      rwa [List.flatMap_singleton'] at h

theorem characters_codeUnits : characters (codeUnits c ++ us) = (c :: ·) <$> characters us := by
  have hval : c.toNat = c.val.toNat := rfl
  have hvalid : c.toNat < 55296 ∨ 57343 < c.toNat ∧ c.toNat < 1114112 := c.valid
  rw [codeUnits]
  split
  · next hsmall =>
    rw [List.cons_append, List.nil_append, characters.eq_def]
    simp only [if_neg (show ¬ (55296 ≤ c.toNat ∧ c.toNat < 57344) by omega), Char.ofNat_toNat]
  · next hbig =>
    rw [List.cons_append, List.cons_append, List.nil_append, characters.eq_def]
    have hback : 65536 + (55296 + (c.toNat - 65536) / 1024 - 55296) * 1024 +
        (56320 + (c.toNat - 65536) % 1024 - 56320) = c.toNat := by omega
    have hhigh : 55296 + (c.toNat - 65536) / 1024 < 56320 := by omega
    have hlow : 56320 + (c.toNat - 65536) % 1024 < 57344 := by omega
    simp only [hback, Char.ofNat_toNat]
    rw [if_pos ⟨Nat.le_add_right _ _, hhigh.trans (by decide)⟩,
      if_pos ⟨hhigh, Nat.le_add_right _ _, hlow⟩]

theorem characters_flatMap : characters (cs.flatMap codeUnits) = some cs := by
  induction cs with
  | nil => rfl
  | cons c cs ih =>
    rw [List.flatMap_cons, characters_codeUnits, ih]
    rfl

/-- A string is read back from behind its opening quote. -/
theorem string_quoted (s : String) :
    string (s.toList.flatMap escape ++ '"' :: rest) = some (s, rest) := by
  have hreads : Reads (s.toList.flatMap escape) (s.toList.flatMap codeUnits) :=
    Reads.flatMap fun c _ => reads_escape
  obtain ⟨m, hm, hread⟩ := hreads ((s.toList.flatMap escape ++ '"' :: rest).length + 1)
    ('"' :: rest) (by simp only [List.length_append]; omega)
  obtain ⟨m, rfl⟩ := Nat.exists_eq_add_one_of_ne_zero (show m ≠ 0 by
    simp only [List.length_append, List.length_cons] at hm
    omega)
  simp only [units, Option.map_some, List.append_nil] at hread
  simp only [string, hread, bind, Option.bind, characters_flatMap, String.ofList_toList]

end Strings

section Atoms

variable {floats : FloatText} {token rest : List Char} {v : Json} {n : Nat}

/-- No number or word goes on in the rest. -/
def Stops (rest : List Char) : Prop := ∀ c, rest.head? = some c → isAtom c = false

theorem stops_cons {c : Char} (h : isAtom c = false) : Stops (c :: rest) := by
  rintro c' ⟨⟩
  exact h

theorem mem_toDigits {c : Char} (h : c ∈ Nat.toDigits 10 n) : ∃ d < 10, c = Nat.digitChar d := by
  induction n using Nat.strong_induction_on with
  | _ n ih =>
    rw [Nat.toDigits_eq_if (by decide)] at h
    split at h
    · next hn => exact ⟨n, hn, List.mem_singleton.mp h⟩
    · rcases List.mem_append.mp h with h | h
      · exact ih (n / 10) (by omega) h
      · exact ⟨n % 10, Nat.mod_lt _ (by decide), List.mem_singleton.mp h⟩

/-- A numeral starts with a zero only when it is one. -/
theorem toDigits_head (h : (Nat.toDigits 10 n).head? = some '0') : n = 0 := by
  induction n using Nat.strong_induction_on with
  | _ n ih =>
    rw [Nat.toDigits_eq_if (by decide)] at h
    split at h
    · simpa using h
    · next hn =>
      rw [List.head?_append_of_ne_nil _ Nat.toDigits_ne_nil] at h
      exact absurd (ih (n / 10) (by omega) h) (by omega)

theorem natural_toDigits : natural (Nat.toDigits 10 n) = some n := by
  have hdigits : (Nat.toDigits 10 n).all Char.isDigit = true :=
    List.all_eq_true.mpr fun c hc => Nat.isDigit_of_mem_toDigits (by decide) (by decide) hc
  have hzero : (Nat.toDigits 10 n).head? = some '0' → Nat.toDigits 10 n = ['0'] := by
    intro h
    rw [toDigits_head h, Nat.toDigits_zero]
  rw [natural, if_pos ⟨Nat.toDigits_ne_nil, hdigits, hzero⟩, Nat.ofDigitChars_ten_toDigits]

theorem integer_eq {c : Char} {cs : List Char} (h : c ≠ '-') :
    integer (c :: cs) = (natural (c :: cs)).map Int.ofNat := by
  rw [integer]
  rintro _ ⟨⟩
  exact h rfl

/-- The characters of the numeral of an integer. -/
theorem mem_integerText {i : Int} {c : Char} (h : c ∈ integerText i) :
    c = '-' ∨ ∃ d < 10, c = Nat.digitChar d := by
  rw [integerText] at h
  split at h
  · rcases List.mem_cons.mp h with rfl | h
    · exact .inl rfl
    · exact .inr (mem_toDigits h)
  · exact .inr (mem_toDigits h)

theorem integer_integerText (i : Int) : integer (integerText i) = some i := by
  rw [integerText]
  split
  · next hneg =>
    have hi : -(i.natAbs : Int) = i := by omega
    rw [integer, natural_toDigits, Option.map_some, hi]
  · next hpos =>
    have hi : Int.ofNat i.natAbs = i := by
      rw [Int.ofNat_eq_natCast]
      omega
    cases hdigits : Nat.toDigits 10 i.natAbs with
    | nil => exact absurd hdigits Nat.toDigits_ne_nil
    | cons c cs =>
      have hdigit : ∀ d < 10, Nat.digitChar d ≠ '-' := by decide
      obtain ⟨d, hd, rfl⟩ : ∃ d < 10, c = Nat.digitChar d :=
        mem_toDigits (hdigits ▸ List.mem_cons_self)
      rw [integer_eq (hdigit d hd), ← hdigits, natural_toDigits, Option.map_some, hi]

theorem isAtom_integerText (i : Int) : ∀ c ∈ integerText i, isAtom c = true := by
  have hdigit : ∀ d < 10, isAtom (Nat.digitChar d) = true := by decide
  intro c hc
  rcases mem_integerText hc with rfl | ⟨d, hd, rfl⟩
  · decide
  · exact hdigit d hd

/-- The text of a value that is no string, list or object. -/
def Scalar : Json → Prop
  | .str _ | .arr _ | .obj _ => False
  | _ => True

theorem isAtom_dumps (floats : FloatText) (hv : Scalar v) : ∀ c ∈ dumps floats v, isAtom c = true := by
  cases v with
  | null =>
    rw [dumps]
    exact List.all_eq_true.mp rfl
  | bool b =>
    rw [dumps]
    cases b <;> exact List.all_eq_true.mp rfl
  | int i =>
    rw [dumps]
    exact isAtom_integerText i
  | float x =>
    cases x with
    | fin q =>
      rw [dumps]
      exact floats.isAtom q
    | inf negative =>
      rw [dumps]
      cases negative <;> exact List.all_eq_true.mp rfl
    | nan =>
      rw [dumps]
      exact List.all_eq_true.mp rfl
  | str s | arr vs | obj fs => exact hv.elim

theorem atom_dumps (floats : FloatText) (hv : Scalar v) : atom floats (dumps floats v) = some v := by
  cases v with
  | int i => rw [dumps, atom, integer_integerText]
  | float x =>
    cases x with
    | fin q =>
      rw [dumps, atom, floats.integer, floats.isNumber, if_pos rfl, floats.read_repr]
    | inf negative => cases negative <;> rfl
    | nan => rfl
  | null => rfl
  | bool b => cases b <;> rfl
  | str s | arr vs | obj fs => exact hv.elim

theorem integer_point {cs : List Char} (h : '.' ∈ cs) : integer cs = none := by
  have hnatural : ∀ ds : List Char, '.' ∈ ds → natural ds = none := by
    intro ds hds
    refine if_neg fun hall => ?_
    have hdigit := List.all_eq_true.mp hall.2.1 '.' hds
    revert hdigit
    decide
  cases cs with
  | nil => cases h
  | cons c cs =>
    by_cases hminus : c = '-'
    · subst hminus
      rw [integer, hnatural cs (List.mem_of_ne_of_mem (by decide) h), Option.map_none]
    · rw [integer_eq hminus, hnatural _ h, Option.map_none]

/-- The part of a number before its point. -/
theorem takeWhile_point {p : Char → Bool} {i : Int} (hminus : p '-' = true)
    (hdigit : ∀ d < 10, p (Nat.digitChar d) = true) (hpoint : p '.' = false) (cs : List Char) :
    (integerText i ++ '.' :: cs).takeWhile p = integerText i := by
  have hall : ∀ c ∈ integerText i, p c = true := by
    intro c hc
    rcases mem_integerText hc with rfl | ⟨d, hd, rfl⟩
    · exact hminus
    · exact hdigit d hd
  rw [List.takeWhile_append_of_pos hall, List.takeWhile_cons_of_neg (by simp [hpoint]),
    List.append_nil]

theorem isNumber_point (i : Int) (d : Nat) :
    isNumber (integerText i ++ '.' :: Nat.toDigits 10 d) = true := by
  have hdigits : ∀ c ∈ Nat.toDigits 10 d, Char.isDigit c = true :=
    fun c hc => Nat.isDigit_of_mem_toDigits (by decide) (by decide) hc
  have htake : (Nat.toDigits 10 d).takeWhile Char.isDigit = Nat.toDigits 10 d :=
    List.takeWhile_eq_self_iff.mpr hdigits
  have hdrop : (Nat.toDigits 10 d).dropWhile Char.isDigit = [] :=
    List.dropWhile_eq_nil_iff.mpr hdigits
  have hfraction : digits (Nat.toDigits 10 d) = true := by
    simp [digits, Nat.toDigits_ne_nil, List.all_eq_true.mpr hdigits]
  rw [isNumber, takeWhile_point (by decide) (by decide) (by decide), integer_integerText,
    List.drop_left]
  simp only [htake, hdrop, hfraction]
  rfl

end Atoms

end JsonText

/-- Floats in concrete runs: whole numbers have the text of `float.__repr__`. -/
def FloatText.whole : FloatText where
  repr q := integerText q.num ++ '.' :: Nat.toDigits 10 (q.den - 1)
  read cs :=
    let whole := cs.takeWhile (· != '.')
    .fin (mkRat ((JsonText.integer whole).getD 0) (Nat.ofDigitChars 10 (cs.drop (whole.length + 1)) 0 + 1))
  isAtom q := by
    refine List.forall_mem_append.mpr ⟨isAtom_integerText q.num, List.forall_mem_cons.mpr ⟨rfl, ?_⟩⟩
    intro c hc
    have hdigit : ∀ d < 10, JsonText.isAtom (Nat.digitChar d) = true := by decide
    obtain ⟨d, hd, rfl⟩ := mem_toDigits hc
    exact hdigit d hd
  isNumber q := isNumber_point q.num (q.den - 1)
  integer q := integer_point (List.mem_append_right _ List.mem_cons_self)
  read_repr q := by
    have hden : q.den - 1 + 1 = q.den := Nat.succ_pred_eq_of_pos q.den_pos
    have hwhole : ∀ cs, (integerText q.num ++ '.' :: cs).takeWhile (· != '.') = integerText q.num :=
      takeWhile_point (by decide) (by decide) (by decide)
    simp only [hwhole, integer_integerText, Option.getD_some, List.drop_length_add_append,
      List.drop_succ_cons, List.drop_zero, Nat.ofDigitChars_ten_toDigits, hden, Rat.mkRat_self]

namespace JsonText

section RoundTrip

variable {floats : FloatText} {rest : List Char} {v : Json} {n : Nat}

theorem not_space_of_isAtom {c : Char} (h : isAtom c = true) : isSpace c = false := by
  have hatoms : "+-.0123456789EINaefilnrstuy".toList.all (!isSpace ·) = true := by decide
  simpa using List.all_eq_true.mp hatoms c (List.contains_iff_mem.mp h)

theorem skip_cons {c : Char} (h : isSpace c = false) : skip (c :: rest) = c :: rest :=
  List.dropWhile_cons_of_neg (by simp [h])

theorem skip_space : skip (' ' :: rest) = skip rest := List.dropWhile_cons_of_pos rfl

theorem dumps_scalar_ne_nil (hv : Scalar v) : dumps floats v ≠ [] := by
  intro hnil
  have hatom := atom_dumps floats hv
  have hempty : integer [] = none ∧ isNumber [] = false ∧ words.lookup [] = none :=
    ⟨rfl, rfl, rfl⟩
  rw [hnil, atom, hempty.1, hempty.2.1, hempty.2.2] at hatom
  cases hatom

theorem dumps_head (floats : FloatText) (v : Json) :
    ∃ c cs, dumps floats v = c :: cs ∧ isSpace c = false ∧ c ≠ ']' := by
  have hscalar : Scalar v → ∃ c cs, dumps floats v = c :: cs ∧ isSpace c = false ∧ c ≠ ']' := by
    intro hv
    cases hdumps : dumps floats v with
    | nil => exact absurd hdumps (dumps_scalar_ne_nil hv)
    | cons c cs =>
      have hc : isAtom c = true := isAtom_dumps floats hv c (hdumps ▸ List.mem_cons_self)
      refine ⟨c, cs, rfl, not_space_of_isAtom hc, ?_⟩
      rintro rfl
      cases hc
  cases v with
  | str s => exact ⟨'"', _, by rw [dumps, quoted], rfl, by decide⟩
  | arr vs => exact ⟨'[', _, by rw [dumps], rfl, by decide⟩
  | obj fs => exact ⟨'{', _, by rw [dumps], rfl, by decide⟩
  | _ => exact hscalar trivial

/-- The text of a value starts with no space. -/
theorem skip_dumps : skip (dumps floats v ++ rest) = dumps floats v ++ rest := by
  obtain ⟨c, cs, hdumps, hc, -⟩ := dumps_head floats v
  rw [hdumps]
  exact skip_cons hc

theorem takeWhile_atom {token : List Char} (htoken : ∀ c ∈ token, isAtom c = true)
    (hrest : Stops rest) : (token ++ rest).takeWhile isAtom = token := by
  rw [List.takeWhile_append_of_pos htoken]
  cases rest with
  | nil => simp
  | cons c rest =>
    rw [List.takeWhile_cons_of_neg (by simp [hrest c rfl]), List.append_nil]

theorem dropWhile_atom {token : List Char} (htoken : ∀ c ∈ token, isAtom c = true)
    (hrest : Stops rest) : (token ++ rest).dropWhile isAtom = rest := by
  rw [List.dropWhile_append_of_pos htoken]
  cases rest with
  | nil => rfl
  | cons c rest => exact List.dropWhile_cons_of_neg (by simp [hrest c rfl])

theorem value_scalar (hv : Scalar v) (hrest : Stops rest) :
    value floats (n + 1) (dumps floats v ++ rest) = some (v, rest) := by
  have htake := takeWhile_atom (isAtom_dumps floats hv) hrest
  have hdrop := dropWhile_atom (isAtom_dumps floats hv) hrest
  cases hdumps : dumps floats v with
  | nil => exact absurd hdumps (dumps_scalar_ne_nil hv)
  | cons c cs =>
    have hc : isAtom c = true := isAtom_dumps floats hv c (hdumps ▸ List.mem_cons_self)
    rw [hdumps] at htake hdrop
    rw [List.cons_append] at htake hdrop ⊢
    rw [value, htake, hdrop, ← hdumps, atom_dumps floats hv]
    · rfl
    all_goals
      intro _ heq
      cases heq
      cases hc

theorem dumpsFields_head (floats : FloatText) (f : String × Json) (fs : List (String × Json)) :
    ∃ cs, dumpsFields floats (f :: fs) = '"' :: cs := by
  obtain ⟨k, v⟩ := f
  cases fs with
  | nil => exact ⟨_, by rw [dumpsFields, quoted, List.cons_append]⟩
  | cons f fs => exact ⟨_, by rw [dumpsFields, quoted, List.cons_append]⟩

theorem dumpsValues_head (floats : FloatText) (v : Json) (vs : List Json) :
    ∃ c cs, dumpsValues floats (v :: vs) = c :: cs ∧ isSpace c = false ∧ c ≠ ']' := by
  obtain ⟨c, cs, hdumps, hc⟩ := dumps_head floats v
  cases vs with
  | nil => exact ⟨c, cs, by rw [dumpsValues, hdumps], hc⟩
  | cons w vs => exact ⟨c, _, by rw [dumpsValues, hdumps, List.cons_append], hc⟩

-- each step of a reader takes a character of the text, which bounds the steps it needs
mutual

theorem value_dumps : ∀ (v : Json) (n : Nat) (rest : List Char), (dumps floats v).length < n →
    Stops rest → value floats n (dumps floats v ++ rest) = some (v, rest)
  | .str s, n + 1, rest, hn, _ => by
    rw [dumps, quoted, List.cons_append, List.append_assoc, value, List.singleton_append,
      string_quoted]
    rfl
  | .arr [], n + 1, rest, hn, _ => by
    rw [dumps, dumpsValues, List.nil_append, List.cons_append, List.singleton_append, value,
      skip_cons (by decide)]
    rfl
  | .arr (v :: vs), n + 1, rest, hn, _ => by
    rw [dumps, List.length_cons, List.length_append, List.length_singleton] at hn
    have hvalues := values_dumps (v :: vs) n rest (List.cons_ne_nil v vs) (by omega)
    obtain ⟨c, cs, hcs, hspace, hclose⟩ := dumpsValues_head floats v vs
    rw [hcs, List.cons_append] at hvalues
    rw [dumps, hcs, List.cons_append, List.append_assoc, List.singleton_append, List.cons_append,
      value, skip_cons hspace]
    split
    · next heq => exact absurd (List.cons.inj heq).1 hclose
    · rw [hvalues]
      rfl
  | .obj [], n + 1, rest, hn, _ => by
    rw [dumps, dumpsFields, List.nil_append, List.cons_append, List.singleton_append, value,
      skip_cons (by decide)]
    rfl
  | .obj (f :: fs), n + 1, rest, hn, _ => by
    rw [dumps, List.length_cons, List.length_append, List.length_singleton] at hn
    have hfields := fields_dumps (f :: fs) n rest (List.cons_ne_nil f fs) (by omega)
    obtain ⟨cs, hcs⟩ := dumpsFields_head floats f fs
    rw [hcs, List.cons_append] at hfields
    rw [dumps, hcs, List.cons_append, List.append_assoc, List.singleton_append, List.cons_append,
      value, skip_cons (by decide)]
    split
    · next heq => cases heq
    · rw [hfields]
      rfl
  | .null, n + 1, rest, _, hrest => value_scalar trivial hrest
  | .bool b, n + 1, rest, _, hrest => value_scalar trivial hrest
  | .int i, n + 1, rest, _, hrest => value_scalar trivial hrest
  | .float x, n + 1, rest, _, hrest => value_scalar trivial hrest

theorem fields_dumps : ∀ (fs : List (String × Json)) (n : Nat) (rest : List Char), fs ≠ [] →
    (dumpsFields floats fs).length < n →
    fields floats n (dumpsFields floats fs ++ '}' :: rest) = some (fs, rest)
  | [], _, _, hne, _ => absurd rfl hne
  | [(k, v)], n + 1, rest, _, hn => by
    rw [dumpsFields, List.length_append, List.length_cons, List.length_cons] at hn
    have hvalue := value_dumps v n ('}' :: rest) (by omega) (stops_cons (by decide))
    rw [dumpsFields, quoted]
    simp only [List.cons_append, List.append_assoc, List.nil_append, fields, string_quoted, bind,
      Option.bind, skip_cons (show isSpace ':' = false from rfl), skip_space, skip_dumps, hvalue,
      skip_cons (show isSpace '}' = false from rfl)]
  | (k, v) :: f :: fs, n + 1, rest, _, hn => by
    rw [dumpsFields, List.length_append, List.length_cons, List.length_cons, List.length_append,
      List.length_cons, List.length_cons] at hn
    have hvalue := value_dumps v n (',' :: ' ' :: (dumpsFields floats (f :: fs) ++ '}' :: rest))
      (by omega) (stops_cons (by decide))
    have hfields := fields_dumps (f :: fs) n rest (List.cons_ne_nil f fs) (by omega)
    obtain ⟨cs, hcs⟩ := dumpsFields_head floats f fs
    rw [hcs, List.cons_append] at hvalue hfields
    rw [dumpsFields, quoted, hcs]
    simp only [List.cons_append, List.append_assoc, List.nil_append, fields, string_quoted, bind,
      Option.bind, skip_cons (show isSpace ':' = false from rfl), skip_space, skip_dumps, hvalue,
      skip_cons (show isSpace ',' = false from rfl), skip_cons (show isSpace '"' = false from rfl),
      hfields]

theorem values_dumps : ∀ (vs : List Json) (n : Nat) (rest : List Char), vs ≠ [] →
    (dumpsValues floats vs).length + 1 < n →
    values floats n (dumpsValues floats vs ++ ']' :: rest) = some (vs, rest)
  | [], _, _, hne, _ => absurd rfl hne
  | [v], n + 1, rest, _, hn => by
    rw [dumpsValues] at hn
    have hvalue := value_dumps v n (']' :: rest) (by omega) (stops_cons (by decide))
    rw [dumpsValues, values]
    simp only [hvalue, bind, Option.bind, skip_cons (show isSpace ']' = false from rfl)]
  | v :: w :: vs, n + 1, rest, _, hn => by
    rw [dumpsValues, List.length_append, List.length_cons, List.length_cons] at hn
    have hvalue := value_dumps v n (',' :: ' ' :: (dumpsValues floats (w :: vs) ++ ']' :: rest))
      (by omega) (stops_cons (by decide))
    have hvalues := values_dumps (w :: vs) n rest (List.cons_ne_nil w vs) (by omega)
    obtain ⟨c, cs, hcs, hspace, -⟩ := dumpsValues_head floats w vs
    rw [hcs, List.cons_append] at hvalue hvalues
    rw [dumpsValues, hcs]
    simp only [List.cons_append, List.append_assoc, values, hvalue, bind, Option.bind, skip_space,
      skip_cons (show isSpace ',' = false from rfl), skip_cons hspace, hvalues]

end

variable (floats) in
theorem loads_dumps (v : Json) : loads floats (dumps floats v) = some v := by
  have hskip : skip (dumps floats v) = dumps floats v := by
    have h : skip (dumps floats v ++ []) = dumps floats v ++ [] := skip_dumps
    rwa [List.append_nil] at h
  have hvalue : value floats ((dumps floats v).length + 1) (dumps floats v ++ []) = some (v, []) :=
    value_dumps v _ [] (Nat.lt_succ_self _) fun c hc => by cases hc
  rw [List.append_nil] at hvalue
  simp only [loads, hskip, hvalue, bind, Option.bind]
  rfl

end RoundTrip

section Printed

variable {floats : FloatText} {cs ds : List Char}

/-- No control character, and no line break, stands in the text. -/
def Printed (cs : List Char) : Prop := ∀ c ∈ cs, 32 ≤ c.toNat

theorem Printed.append (h : Printed cs) (h' : Printed ds) : Printed (cs ++ ds) :=
  List.forall_mem_append.mpr ⟨h, h'⟩

theorem Printed.cons {c : Char} (hc : 32 ≤ c.toNat) (h : Printed cs) : Printed (c :: cs) :=
  List.forall_mem_cons.mpr ⟨hc, h⟩

theorem printed_nil : Printed [] := fun c hc => by cases hc

theorem printed_hexEscape (u : Nat) : Printed (hexEscape u) := by
  have hdigit : ∀ n, 32 ≤ (Nat.digitChar n).toNat := by
    intro n
    by_cases hn : n < 16
    · revert n
      decide
    · rw [Nat.digitChar_eq_star.mpr (Nat.le_of_not_lt hn)]
      decide
  have hhead : 32 ≤ '\\'.toNat ∧ 32 ≤ 'u'.toNat := by decide
  exact .cons hhead.1 (.cons hhead.2 (.cons (hdigit _) (.cons (hdigit _) (.cons (hdigit _)
    (.cons (hdigit _) printed_nil)))))

theorem printed_escape (c : Char) : Printed (escape c) := by
  rw [escape]
  cases hlookup : escapes.lookup c with
  | some letter =>
    have hletters : ∀ p ∈ escapes, 32 ≤ p.2.toNat := by decide
    exact .cons (by decide) (.cons (hletters _ (mem_of_lookup hlookup)) printed_nil)
  | none =>
    simp only
    split
    · next hc => exact .cons hc.1 printed_nil
    · intro d hd
      obtain ⟨u, -, hu⟩ := List.mem_flatMap.mp hd
      exact printed_hexEscape u d hu

theorem printed_quoted (s : String) : Printed (quoted s) := by
  refine .cons (by decide) (.append (fun d hd => ?_) (.cons (by decide) printed_nil))
  obtain ⟨c, -, hc⟩ := List.mem_flatMap.mp hd
  exact printed_escape c d hc

theorem printed_scalar {v : Json} (hv : Scalar v) : Printed (dumps floats v) := by
  have hatoms : "+-.0123456789EINaefilnrstuy".toList.all (32 ≤ ·.toNat) = true := by decide
  intro c hc
  have hatom := List.contains_iff_mem.mp (isAtom_dumps floats hv c hc)
  exact of_decide_eq_true (List.all_eq_true.mp hatoms c hatom)

mutual

theorem printed_dumps : ∀ v : Json, Printed (dumps floats v)
  | .str s => by
    rw [dumps]
    exact printed_quoted s
  | .arr vs => by
    rw [dumps]
    exact .cons (by decide) ((printed_dumpsValues vs).append (.cons (by decide) printed_nil))
  | .obj fs => by
    rw [dumps]
    exact .cons (by decide) ((printed_dumpsFields fs).append (.cons (by decide) printed_nil))
  | .null => printed_scalar trivial
  | .bool _ => printed_scalar trivial
  | .int _ => printed_scalar trivial
  | .float _ => printed_scalar trivial

theorem printed_dumpsValues : ∀ vs : List Json, Printed (dumpsValues floats vs)
  | [] => by
    rw [dumpsValues]
    exact printed_nil
  | [v] => by
    rw [dumpsValues]
    exact printed_dumps v
  | v :: w :: vs => by
    rw [dumpsValues]
    exact (printed_dumps v).append (.cons (by decide) (.cons (by decide)
      (printed_dumpsValues (w :: vs))))

theorem printed_dumpsFields : ∀ fs : List (String × Json), Printed (dumpsFields floats fs)
  | [] => by
    rw [dumpsFields]
    exact printed_nil
  | [(k, v)] => by
    rw [dumpsFields]
    exact (printed_quoted k).append (.cons (by decide) (.cons (by decide) (printed_dumps v)))
  | (k, v) :: f :: fs => by
    rw [dumpsFields]
    exact (printed_quoted k).append (.cons (by decide) (.cons (by decide)
      ((printed_dumps v).append (.cons (by decide) (.cons (by decide)
        (printed_dumpsFields (f :: fs)))))))

end

end Printed

end JsonText

end GridWitness.Client
