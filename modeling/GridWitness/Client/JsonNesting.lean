import GridWitness.Client.JsonTextLaws
import GridWitness.Library.Nesting

namespace GridWitness.Client

open Library

namespace JsonText

section Nesting

variable {floats : FloatText} {cs rest : List Char} {us : List Nat} {n u : Nat}

/-- Strings and brackets of JSON; outside them stand only numbers, words, spaces and separators. -/
def nesting : Nesting Char where
  role c :=
    if isAtom c || isSpace c || c == ',' || c == ':' then .plain
    else if c == '{' || c == '[' then .opens
    else if c == '}' || c == ']' then .closes
    else if c == '"' then .quote
    else .stray
  escapes c := c == '\\'
  escaped c := "\"\\/bfnrtu".toList.contains c

theorem role_of_isAtom {c : Char} (h : isAtom c = true) : nesting.role c = .plain := by
  simp [nesting, h]

theorem role_of_isSpace {c : Char} (h : isSpace c = true) : nesting.role c = .plain := by
  simp [nesting, h]

theorem role_eq_quote {c : Char} (h : nesting.role c = .quote) : c = '"' := by
  simp only [nesting] at h
  split_ifs at h with _ _ _ hc
  exact beq_iff_eq.mp hc

theorem passes_skip : nesting.Passes cs (skip cs) := by
  refine ⟨cs.takeWhile isSpace, List.takeWhile_append_dropWhile.symm, ?_⟩
  exact Nesting.balanced_of_plain fun c hc => role_of_isSpace (List.all_eq_true.mp List.all_takeWhile c hc)

theorem passes_atom : nesting.Passes cs (cs.dropWhile isAtom) := by
  refine ⟨cs.takeWhile isAtom, List.takeWhile_append_dropWhile.symm, ?_⟩
  exact Nesting.balanced_of_plain fun c hc => role_of_isAtom (List.all_eq_true.mp List.all_takeWhile c hc)

theorem content_hex {c : Char} (h : hexValue c = some u) : nesting.Content [c] := by
  refine Nesting.content_singleton (fun hquote => ?_) ?_
  · rw [role_eq_quote hquote] at h
    cases h
  · refine beq_false_of_ne ?_
    rintro rfl
    cases h

theorem content_unescape (h : unescape cs = some (u, rest)) :
    ∃ front, cs = front ++ rest ∧ nesting.Content ('\\' :: front) := by
  have hrole : nesting.role '\\' ≠ .quote := by decide
  rw [unescape.eq_def] at h
  split at h
  · cases h
  · next a b c d cs =>
    simp only [Option.bind_eq_bind, Option.bind_eq_some_iff, Option.some.injEq, Prod.mk.injEq] at h
    obtain ⟨a', ha, b', hb, c', hc, d', hd, -, rfl⟩ := h
    refine ⟨['u', a, b, c, d], rfl, ?_⟩
    have hu : nesting.Content ['\\', 'u'] := Nesting.content_escape hrole rfl rfl
    exact hu.append ((content_hex ha).append ((content_hex hb).append
      ((content_hex hc).append (content_hex hd))))
  · next c cs _ =>
    rw [Option.map_eq_some_iff] at h
    obtain ⟨letter, hlookup, heq⟩ := h
    cases heq
    refine ⟨[c], rfl, Nesting.content_escape hrole rfl ?_⟩
    have hletters : ∀ p ∈ unescapes, nesting.escaped p.1 = true := by decide
    exact hletters _ (mem_of_lookup hlookup)

theorem content_units (h : units n cs = some (us, rest)) :
    ∃ front, cs = front ++ '"' :: rest ∧ nesting.Content front := by
  fun_induction units n cs generalizing us rest with
  | case1 | case2 => cases h
  | case3 n cs =>
    cases h
    exact ⟨[], rfl, .nil⟩
  | case4 n cs ih =>
    simp only [Option.bind_eq_bind, Option.bind_eq_some_iff, Option.some.injEq, Prod.mk.injEq] at h
    obtain ⟨⟨u, cs'⟩, hunescape, ⟨us', cs''⟩, hunits, -, rfl⟩ := h
    obtain ⟨front, rfl, hfront⟩ := content_unescape hunescape
    obtain ⟨back, rfl, hback⟩ := ih cs' hunits
    exact ⟨'\\' :: (front ++ back), by simp, hfront.append hback⟩
  | case5 => cases h
  | case6 n c cs hquote hescape _ ih =>
    simp only [Option.bind_eq_bind, Option.bind_eq_some_iff, Option.some.injEq, Prod.mk.injEq] at h
    obtain ⟨⟨us', cs'⟩, hunits, -, rfl⟩ := h
    obtain ⟨front, rfl, hfront⟩ := ih hunits
    have hc : nesting.Content [c] :=
      Nesting.content_singleton (fun h => hquote (role_eq_quote h)) (beq_false_of_ne hescape)
    exact ⟨c :: front, rfl, hc.append hfront⟩

theorem passes_string {s : String} (h : string cs = some (s, rest)) :
    nesting.Passes ('"' :: cs) rest := by
  simp only [string, Option.bind_eq_bind, Option.bind_eq_some_iff, Option.some.injEq,
    Prod.mk.injEq] at h
  obtain ⟨⟨us, cs'⟩, hunits, _, _, -, rfl⟩ := h
  exact .quoted (by decide) (by decide) (content_units hunits)

/-- What the readers go over in so many steps is balanced. -/
structure Sound (floats : FloatText) (n : Nat) : Prop where
  value : ∀ cs v rest, value floats n cs = some (v, rest) → nesting.Passes cs rest
  fields : ∀ cs fs rest, fields floats n cs = some (fs, rest) → nesting.Passes cs ('}' :: rest)
  values : ∀ cs vs rest, values floats n cs = some (vs, rest) → nesting.Passes cs (']' :: rest)

theorem passes_skip_cons {c : Char} (h : skip cs = c :: rest) : nesting.Passes cs (c :: rest) :=
  h ▸ passes_skip

theorem passes_value (hn : Sound floats n) {v : Json}
    (h : value floats (n + 1) cs = some (v, rest)) : nesting.Passes cs rest := by
  rw [value.eq_def] at h
  simp only [Option.bind_eq_bind] at h
  split at h
  · cases h
  · obtain ⟨⟨s, cs'⟩, hstring, heq⟩ := Option.bind_eq_some_iff.mp h
    cases heq
    exact passes_string hstring
  · next hsucc =>
    cases hsucc
    refine .bracketed (c := '}') (by decide) (by decide) ?_
    split at h
    · next hskip =>
      cases h
      exact passes_skip_cons hskip
    · obtain ⟨⟨fs, cs'⟩, hfields, heq⟩ := Option.bind_eq_some_iff.mp h
      cases heq
      exact passes_skip.trans (hn.fields _ _ _ hfields)
  · next hsucc =>
    cases hsucc
    refine .bracketed (c := ']') (by decide) (by decide) ?_
    split at h
    · next hskip =>
      cases h
      exact passes_skip_cons hskip
    · obtain ⟨⟨vs, cs'⟩, hvalues, heq⟩ := Option.bind_eq_some_iff.mp h
      cases heq
      exact passes_skip.trans (hn.values _ _ _ hvalues)
  · obtain ⟨v', -, heq⟩ := Option.bind_eq_some_iff.mp h
    cases heq
    exact passes_atom

theorem passes_fields (hn : Sound floats n) {fs : List (String × Json)}
    (h : fields floats (n + 1) cs = some (fs, rest)) : nesting.Passes cs ('}' :: rest) := by
  have hplain : ∀ c, c = ':' ∨ c = ',' → nesting.role c = .plain := by
    rintro c (rfl | rfl) <;> decide
  rw [fields.eq_def] at h
  simp only [Option.bind_eq_bind] at h
  split at h
  · next hsucc =>
    cases hsucc
    obtain ⟨⟨k, cs'⟩, hkey, h⟩ := Option.bind_eq_some_iff.mp h
    refine (passes_string hkey).trans ?_
    split at h
    · next hcolon =>
      refine (passes_skip_cons hcolon).trans ((Nesting.Passes.plain (hplain _ (.inl rfl))).trans ?_)
      obtain ⟨⟨v, cs''⟩, hvalue, h⟩ := Option.bind_eq_some_iff.mp h
      refine passes_skip.trans ((hn.value _ _ _ hvalue).trans ?_)
      split at h
      · next hclose =>
        cases h
        exact passes_skip_cons hclose
      · next hcomma =>
        obtain ⟨⟨fs', more⟩, hfields, heq⟩ := Option.bind_eq_some_iff.mp h
        cases heq
        exact (passes_skip_cons hcomma).trans ((Nesting.Passes.plain (hplain _ (.inr rfl))).trans
          (passes_skip.trans (hn.fields _ _ _ hfields)))
      · cases h
    · cases h
  · cases h

theorem passes_values (hn : Sound floats n) {vs : List Json}
    (h : values floats (n + 1) cs = some (vs, rest)) : nesting.Passes cs (']' :: rest) := by
  have hcomma : nesting.role ',' = .plain := by decide
  rw [values] at h
  simp only [Option.bind_eq_bind] at h
  obtain ⟨⟨v, cs'⟩, hvalue, h⟩ := Option.bind_eq_some_iff.mp h
  refine (hn.value _ _ _ hvalue).trans ?_
  split at h
  · next hclose =>
    cases h
    exact passes_skip_cons hclose
  · next hskip =>
    obtain ⟨⟨vs', cs''⟩, hvalues, heq⟩ := Option.bind_eq_some_iff.mp h
    cases heq
    exact (passes_skip_cons hskip).trans ((Nesting.Passes.plain hcomma).trans
      (passes_skip.trans (hn.values _ _ _ hvalues)))
  · cases h

theorem sound (n : Nat) : Sound floats n := by
  induction n with
  | zero =>
    refine ⟨fun cs v rest h => ?_, fun cs fs rest h => ?_, fun cs vs rest h => ?_⟩
    · simp [value] at h
    · simp [fields] at h
    · simp [values] at h
  | succ n ih =>
    exact ⟨fun _ _ _ => passes_value ih, fun _ _ _ => passes_fields ih,
      fun _ _ _ => passes_values ih⟩

/-- A text that can be read is balanced. -/
theorem balanced_of_loads {v : Json} (h : loads floats cs = some v) : nesting.Balanced cs := by
  obtain ⟨⟨v', rest⟩, hvalue, h⟩ := Option.bind_eq_some_iff.mp h
  simp only [Option.ite_none_right_eq_some, List.isEmpty_iff] at h
  have hpasses : nesting.Passes cs [] :=
    passes_skip.trans (((sound _).value _ _ _ hvalue).trans (h.1 ▸ passes_skip))
  obtain ⟨front, rfl, hfront⟩ := hpasses
  rwa [List.append_nil]

end Nesting

section Torn

variable {floats : FloatText} {fs gs : List (String × Json)} {front back cs : List Char}

theorem balanced_dumpsFields : nesting.Balanced (dumpsFields floats fs) := by
  cases fs with
  | nil =>
    rw [dumpsFields]
    exact .nil
  | cons f fs =>
    have hfields : fields floats ((dumpsFields floats (f :: fs)).length + 1)
        (dumpsFields floats (f :: fs) ++ '}' :: []) = some (f :: fs, []) :=
      fields_dumps (f :: fs) _ [] (List.cons_ne_nil f fs) (Nat.lt_succ_self _)
    obtain ⟨body, htext, hbody⟩ := (sound _).fields _ _ _ hfields
    rwa [(List.append_inj' htext rfl).1]

/-- A torn record leaves a bracket open. -/
theorem scan_front (h : front ++ back = dumps floats (.obj fs)) (hfront : front ≠ [])
    (hback : back ≠ []) : ∃ p, nesting.scan (.outside 0) front = some (Nesting.Place.deepen p) := by
  rw [dumps] at h
  exact Nesting.open_of_append (by decide) balanced_dumpsFields h hfront hback

theorem loads_front (h : front ++ back = dumps floats (.obj fs)) (hfront : front ≠ [])
    (hback : back ≠ []) : loads floats front = none := by
  obtain ⟨p, hp⟩ := scan_front h hfront hback
  refine Option.eq_none_iff_forall_ne_some.mpr fun v hv => ?_
  have hclosed := balanced_of_loads hv 0
  rw [hp] at hclosed
  cases p <;> cases hclosed

/-- A torn record with another on the same line cannot be read. -/
theorem loads_front_append (h : front ++ back = dumps floats (.obj fs)) (hfront : front ≠ [])
    (hback : back ≠ []) (hnext : dumps floats (.obj gs) = '{' :: '"' :: 'k' :: cs) :
    loads floats (front ++ dumps floats (.obj gs)) = none := by
  obtain ⟨p, hp⟩ := scan_front h hfront hback
  refine Option.eq_none_iff_forall_ne_some.mpr fun v hv => ?_
  have hclosed := balanced_of_loads hv 0
  have hbalanced := balanced_of_loads (loads_dumps floats (.obj gs))
  rw [Nesting.scan_append, hp, Option.bind_some] at hclosed
  rw [hnext] at hclosed hbalanced
  exact Nesting.scan_deepen_ne (by decide) (by decide) (by decide) (by decide) (by decide) hbalanced p
    hclosed

/-- Two records on one line cannot be read. -/
theorem loads_append : loads floats (dumps floats (.obj fs) ++ dumps floats (.obj gs)) = none := by
  have hnext : dumps floats (.obj gs) = '{' :: (dumpsFields floats gs ++ ['}']) := by rw [dumps]
  have hstops : Stops (dumps floats (.obj gs)) := hnext ▸ stops_cons (by decide)
  have hskip : skip (dumps floats (.obj gs)) = dumps floats (.obj gs) := by
    rw [hnext]
    exact skip_cons (by decide)
  have hlength : (dumps floats (.obj fs)).length <
      (dumps floats (.obj fs) ++ dumps floats (.obj gs)).length + 1 := by
    rw [List.length_append]
    omega
  have hvalue := value_dumps (.obj fs) _ (dumps floats (.obj gs)) hlength hstops
  have hrest : (dumps floats (.obj gs)).isEmpty = false := by rw [hnext, List.isEmpty_cons]
  simp only [loads, skip_dumps, hvalue, Option.bind_eq_bind, Option.bind_some, hskip, hrest,
    Bool.false_eq_true, if_false]

end Torn

end JsonText

end GridWitness.Client
