import GridWitness.Client.Discovery

namespace GridWitness.Client

open Library

theorem isSeparator_toLower {c : Char} (h : isSeparator c) : c.toLower = c := by
  rcases Bool.or_eq_true_iff.mp h with hc | hspace
  · rw [of_decide_eq_true hc]
    rfl
  · exact Text.toLower_space hspace

namespace PhaseToken

variable (t : PhaseToken)

/-- Where the phase stands in the order in which they are tried. -/
def rank : Nat := t.digit.toNat

/-- A way to write the token, such as `l1` or `Phase_A`. -/
def Spells (word : List Char) : Prop := t.token.Matches true word []

/-- A text begins with the token, followed by nothing or by a character that may follow. -/
def Leads (follows : Char → Bool) (text : List Char) : Prop :=
  ∃ word rest, text = word ++ rest ∧ t.Spells word ∧ ∀ c ∈ rest.head?, follows c

/-- The token stands behind a separator, followed by another or by nothing. -/
def Inside (text : List Char) : Prop :=
  ∃ before sep rest, text = before ++ sep :: rest ∧ isSeparator sep ∧ t.Leads isSeparator rest

/-- What the pattern of the phase looks for. -/
def Found (text : List Char) : Prop := t.Leads isSeparator text ∨ t.Inside text

variable {t}

theorem token_matches {first : Bool} {word after : List Char} :
    t.token.Matches first word after ↔ t.Spells word :=
  ⟨Pattern.matches_plain rfl, Pattern.matches_plain rfl⟩

/-- The part of the pattern behind its start. -/
abbrev tail (t : PhaseToken) : Pattern := .seq t.token (.alt .stop separator)

theorem leads_iff {text : List Char} (first : Bool) :
    t.Leads isSeparator text ↔ ∃ word after, text = word ++ after ∧ t.tail.Matches first word after := by
  constructor
  · rintro ⟨word, rest, rfl, hword, hrest⟩
    cases rest with
    | nil =>
      have hstop : (Pattern.alt .stop separator).Matches (first && word.isEmpty) [] [] := Or.inl ⟨rfl, Or.inl rfl⟩
      exact ⟨word, [], rfl, word, [], (List.append_nil _).symm, token_matches.mpr hword, hstop⟩
    | cons c after =>
      have hc : isSeparator c := hrest c rfl
      exact ⟨word ++ [c], after, by simp, word, [c], rfl, token_matches.mpr hword, Or.inr ⟨c, rfl, hc⟩⟩
  · rintro ⟨-, after, rfl, u, v, rfl, hu, ⟨rfl, hstop⟩ | ⟨c, rfl, hc⟩⟩
    · refine ⟨u, after, by simp, token_matches.mp hu, fun c hc => ?_⟩
      rcases hstop with rfl | rfl
      · cases hc
      · cases hc
        decide
    · refine ⟨u, c :: after, by simp, token_matches.mp hu, fun d hd => ?_⟩
      cases hd
      exact hc

/-- The pattern is found at the start of a text or behind a separator. -/
theorem search_rx {text : List Char} : t.rx.search text ↔ t.Found text := by
  rw [Pattern.search_iff]
  constructor
  · rintro ⟨before, -, after, rfl, u, v, rfl, ⟨rfl, hfirst⟩ | ⟨sep, rfl, hsep⟩, hv⟩
    · obtain rfl := List.isEmpty_iff.mp hfirst
      exact Or.inl ((leads_iff _).mpr ⟨v, after, rfl, hv⟩)
    · exact Or.inr ⟨before, sep, v ++ after, rfl, hsep, (leads_iff _).mpr ⟨v, after, rfl, hv⟩⟩
  · rintro (hleads | ⟨before, sep, rest, rfl, hsep, hleads⟩)
    · obtain ⟨word, after, rfl, hmatch⟩ := (leads_iff true).mp hleads
      exact ⟨[], word, after, rfl, [], word, rfl, Or.inl ⟨rfl, rfl⟩, hmatch⟩
    · obtain ⟨word, after, rfl, hmatch⟩ := (leads_iff (before.isEmpty && false)).mp hleads
      exact ⟨before, sep :: word, after, rfl, [sep], word, rfl, Or.inr ⟨sep, rfl, hsep⟩, hmatch⟩

theorem caseless_matches {letter : Char} {first : Bool} {word after : List Char} (hletter : letter ≠ 's')
    (h : (caseless letter).Matches first word after) : ∃ c, word = [c] ∧ c.toLower = letter := by
  obtain ⟨c, rfl, hc⟩ := h
  exact ⟨c, rfl, by simpa [hletter] using hc⟩

theorem phWord_matches {first : Bool} {word after : List Char} (h : phWord.Matches first word after) :
    ∃ p h, word = [p, h] ∧ p.toLower = 'p' := by
  obtain ⟨u, v, rfl, hu, hv⟩ := h
  obtain ⟨p, rfl, hp⟩ := caseless_matches (by decide) hu
  obtain ⟨h, rfl, -⟩ := caseless_matches (by decide) hv
  exact ⟨p, h, rfl, hp⟩

theorem phaseWord_matches {first : Bool} {word after : List Char} (h : phaseWord.Matches first word after) :
    ∃ p h a s e, word = [p, h, a, s, e] ∧ p.toLower = 'p' ∧ (s.toLower = 's' ∨ s = 'ſ') := by
  obtain ⟨u, v, rfl, hu, ⟨a, v, rfl, ⟨c, rfl, -⟩, s, e, rfl, ⟨d, rfl, hd⟩, he⟩⟩ := h
  obtain ⟨p, h, rfl, hp⟩ := phWord_matches hu
  obtain ⟨e, rfl, -⟩ := caseless_matches (by decide) he
  exact ⟨p, h, c, d, e, rfl, hp, by simpa using hd⟩

/-- The ways to write a token, each with the character that names the phase. -/
theorem spells_forms {word : List Char} (ht : t ∈ phaseTokens) (h : t.Spells word) :
    ∃ m, (m.toLower = t.digit ∨ m.toLower = t.letter) ∧
      ((∃ l, word = [l, m] ∧ l.toLower = 'l') ∨
        (∃ p h a s e gap, word = p :: h :: a :: s :: e :: (gap ++ [m]) ∧ p.toLower = 'p' ∧
          (s.toLower = 's' ∨ s = 'ſ') ∧ (gap = [] ∨ ∃ c, gap = [c] ∧ isSeparator c)) ∨
        ∃ p h gap, word = p :: h :: (gap ++ [m]) ∧ p.toLower = 'p' ∧ (gap = [] ∨ gap = ['_'])) := by
  have hmarks : ∀ t ∈ phaseTokens, t.digit ≠ 's' ∧ t.letter ≠ 's' := by decide
  obtain ⟨hdigit, hletter⟩ := hmarks t ht
  rcases h with ⟨u, v, rfl, hu, hv⟩ | ⟨u, v, rfl, hu, gap, v, rfl, hgap, hv⟩ |
    ⟨u, v, rfl, hu, gap, v, rfl, hgap, hv⟩ | ⟨u, v, rfl, hu, gap, v, rfl, hgap, hv⟩
  · obtain ⟨l, rfl, hl⟩ := caseless_matches (by decide) hu
    obtain ⟨m, rfl, hm⟩ := caseless_matches hdigit hv
    exact ⟨m, Or.inl hm, Or.inl ⟨l, rfl, hl⟩⟩
  · obtain ⟨p, h, a, s, e, rfl, hp, hs⟩ := phaseWord_matches hu
    obtain ⟨m, rfl, hm⟩ := caseless_matches hdigit hv
    exact ⟨m, Or.inl hm, Or.inr (Or.inl ⟨p, h, a, s, e, gap, rfl, hp, hs, hgap.symm⟩)⟩
  · obtain ⟨p, h, a, s, e, rfl, hp, hs⟩ := phaseWord_matches hu
    obtain ⟨m, rfl, hm⟩ := caseless_matches hletter hv
    exact ⟨m, Or.inr hm, Or.inr (Or.inl ⟨p, h, a, s, e, gap, rfl, hp, hs, hgap.symm⟩)⟩
  · obtain ⟨p, h, rfl, hp⟩ := phWord_matches hu
    obtain ⟨m, rfl, hm⟩ := caseless_matches hletter hv
    refine ⟨m, Or.inr hm, Or.inr (Or.inr ⟨p, h, gap, rfl, hp, hgap.symm.imp_right ?_⟩)⟩
    rintro ⟨c, rfl, hc⟩
    simpa using hc

/-- The character that names the phase, where a text begins with a token. -/
def mark (text : List Char) : Option Char :=
  if text[0]?.any (·.toLower = 'l') then text[1]?
  else if text[3]?.any fun c => c.toLower = 's' || c = 'ſ' then
    if text[5]?.any isSeparator then text[6]? else text[5]?
  else if text[2]? = some '_' then text[3]?
  else text[2]?

/-- Neither a separator nor a character that names a phase could be taken for another part of a token. -/
theorem separator_plain {c : Char} (h : isSeparator c) : c.toLower ≠ 's' ∧ c ≠ 'ſ' := by
  refine ⟨fun hs => ?_, ?_⟩
  · rw [isSeparator_toLower h] at hs
    exact absurd (hs ▸ h) (by decide)
  · rintro rfl
    exact absurd h (by decide)

theorem mark_plain {m : Char} (ht : t ∈ phaseTokens) (h : m.toLower = t.digit ∨ m.toLower = t.letter) :
    isSeparator m = false ∧ m.toLower ≠ 's' ∧ m ≠ 'ſ' := by
  have hplain : ∀ t ∈ phaseTokens, (isSeparator t.digit = false ∧ t.digit ≠ 's' ∧ t.digit ≠ 'ſ') ∧
      isSeparator t.letter = false ∧ t.letter ≠ 's' ∧ t.letter ≠ 'ſ' := by decide
  obtain ⟨hsep, hs, hlong⟩ : isSeparator m.toLower = false ∧ m.toLower ≠ 's' ∧ m.toLower ≠ 'ſ' := by
    rcases h with h | h
    · exact h ▸ (hplain t ht).1
    · exact h ▸ (hplain t ht).2
  refine ⟨?_, hs, ?_⟩
  · by_contra hmsep
    rw [isSeparator_toLower (by simpa using hmsep)] at hsep
    exact hmsep hsep
  · rintro rfl
    exact hlong rfl

theorem leads_mark {text : List Char} (ht : t ∈ phaseTokens) (h : t.Leads isSeparator text) :
    ∃ m, mark text = some m ∧ (m.toLower = t.digit ∨ m.toLower = t.letter) := by
  obtain ⟨word, rest, rfl, hword, hrest⟩ := h
  obtain ⟨m, hm, hforms⟩ := spells_forms ht hword
  obtain ⟨hsep, hs, hlong⟩ := mark_plain ht hm
  refine ⟨m, ?_, hm⟩
  rcases hforms with ⟨l, rfl, hl⟩ | ⟨p, h, a, s, e, gap, rfl, hp, hs', rfl | ⟨c, rfl, hc⟩⟩ |
    ⟨p, h, gap, rfl, hp, rfl | rfl⟩
  · simp [mark, hl]
  · simp [mark, hp, hs', hsep]
  · simp [mark, hp, hs', hc]
  · have hunderscore : m ≠ '_' := by
      rintro rfl
      exact absurd hsep (by decide)
    cases rest with
    | nil => simp [mark, hp, hunderscore]
    | cons c rest =>
      obtain ⟨hcs, hclong⟩ := separator_plain (hrest c rfl)
      simp [mark, hp, hunderscore, hcs, hclong]
  · simp [mark, hp, hs, hlong]

/-- A text begins with a token of one phase at most. -/
theorem leads_unique {u : PhaseToken} {text : List Char} (ht : t ∈ phaseTokens) (hu : u ∈ phaseTokens)
    (h : t.Leads isSeparator text) (h' : u.Leads isSeparator text) : t = u := by
  have hmarks : ∀ t ∈ phaseTokens, ∀ u ∈ phaseTokens, (t.digit = u.digit ∨ t.digit = u.letter) ∨
      (t.letter = u.digit ∨ t.letter = u.letter) → t = u := by decide
  obtain ⟨m, hm, hmt⟩ := leads_mark ht h
  obtain ⟨m', hm', hmu⟩ := leads_mark hu h'
  obtain rfl : m = m' := Option.some_inj.mp (hm.symm.trans hm')
  refine hmarks t ht u hu (hmt.imp (fun hdigit => ?_) fun hletter => ?_)
  · rwa [hdigit] at hmu
  · rwa [hletter] at hmu

theorem leads_cons {follows : Char → Bool} {text : List Char} (ht : t ∈ phaseTokens)
    (h : t.Leads follows text) :
    ∃ c rest, text = c :: rest ∧ (c.toLower = 'l' ∨ c.toLower = 'p') := by
  obtain ⟨word, rest, rfl, hword, -⟩ := h
  obtain ⟨m, -, ⟨l, rfl, hl⟩ | ⟨p, h, a, s, e, gap, rfl, hp, -⟩ | ⟨p, h, gap, rfl, hp, -⟩⟩ :=
    spells_forms ht hword
  · exact ⟨l, _, rfl, Or.inl hl⟩
  · exact ⟨p, _, rfl, Or.inr hp⟩
  · exact ⟨p, _, rfl, Or.inr hp⟩

theorem leads_mono {follows follows' : Char → Bool} (hsub : ∀ c, follows c → follows' c) {text : List Char}
    (h : t.Leads follows text) : t.Leads follows' text := by
  obtain ⟨word, rest, htext, hword, hrest⟩ := h
  exact ⟨word, rest, htext, hword, fun c hc => hsub c (hrest c hc)⟩

/-- What stands in front without a separator hides no token, and adds none. -/
theorem inside_append {front text : List Char} (hfront : ∀ c ∈ front, ¬ isSeparator c) :
    t.Inside (front ++ text) ↔ t.Inside text := by
  constructor
  · rintro ⟨before, sep, rest, htext, hsep, hleads⟩
    rcases List.append_eq_append_iff.mp htext with ⟨before', rfl, rfl⟩ | ⟨gap, rfl, hgap⟩
    · exact ⟨before', sep, rest, rfl, hsep, hleads⟩
    · cases gap with
      | nil => exact ⟨[], sep, rest, hgap.symm, hsep, hleads⟩
      | cons c gap =>
        obtain ⟨rfl, -⟩ := List.cons_eq_cons.mp hgap
        exact absurd hsep (hfront sep (by simp))
  · rintro ⟨before, sep, rest, rfl, hsep, hleads⟩
    exact ⟨front ++ before, sep, rest, (List.append_assoc _ _ _).symm, hsep, hleads⟩

/-- Behind its domain no token stands at the start of an entity id. -/
theorem found_sensor (ht : t ∈ phaseTokens) (x : String) :
    t.Found ("sensor." ++ x).toList ↔ t.Inside x.toList := by
  have hdomain : ∀ c ∈ "sensor.".toList, ¬ isSeparator c := by simp [isSeparator, Text.isSpace]
  rw [String.toList_append, Found, inside_append hdomain]
  refine or_iff_right fun hleads => ?_
  obtain ⟨c, rest, htext, hc⟩ := leads_cons ht hleads
  obtain ⟨rfl, -⟩ := List.cons_eq_cons.mp htext
  exact absurd hc (by decide)

end PhaseToken

/-- Of the phases with a property, the one whose pattern is tried first. -/
def First (P : PhaseToken → Prop) (t : PhaseToken) : Prop :=
  P t ∧ ∀ u ∈ phaseTokens, u.rank < t.rank → ¬ P u

section First

variable {P : PhaseToken → Prop} {t u : PhaseToken}

theorem rank_trichotomy (ht : t ∈ phaseTokens) (hu : u ∈ phaseTokens) :
    t.rank < u.rank ∨ t = u ∨ u.rank < t.rank := by
  have hranks : ∀ t ∈ phaseTokens, ∀ u ∈ phaseTokens, t.rank < u.rank ∨ t = u ∨ u.rank < t.rank := by
    decide
  exact hranks t ht u hu

theorem First.unique (ht : t ∈ phaseTokens) (hu : u ∈ phaseTokens) (h : First P t) (h' : First P u) :
    t = u := by
  rcases rank_trichotomy ht hu with hlt | heq | hlt
  · exact absurd h.1 (h'.2 t ht hlt)
  · exact heq
  · exact absurd h'.1 (h.2 u hu hlt)

theorem First.congr {Q : PhaseToken → Prop} (ht : t ∈ phaseTokens) (hPQ : ∀ u ∈ phaseTokens, P u ↔ Q u) :
    First P t ↔ First Q t :=
  and_congr (hPQ t ht) (forall₂_congr fun u hu => imp_congr_right fun _ => not_congr (hPQ u hu))

end First

theorem searchPhase_eq_none {text : String} :
    searchPhase text = none ↔ ∀ t ∈ phaseTokens, ¬ t.Found text.toList := by
  simp [searchPhase, PhaseToken.search_rx]

theorem searchPhase_first {text : String} {t : PhaseToken} (h : searchPhase text = some t) :
    t ∈ phaseTokens ∧ First (·.Found text.toList) t := by
  have hsorted : phaseTokens.Pairwise (·.rank < ·.rank) := by decide
  rw [searchPhase] at h
  have hsearch := List.find?_some h
  refine ⟨List.mem_of_find?_eq_some h, PhaseToken.search_rx.mp hsearch, fun u hu hlt hfound => ?_⟩
  obtain ⟨-, earlier, later, hsplit, hearlier⟩ := List.find?_eq_some_iff_append.mp h
  rw [hsplit] at hu hsorted
  rcases List.mem_append.mp hu with hu | hu
  · have hnot := hearlier u hu
    rw [PhaseToken.search_rx.mpr hfound] at hnot
    cases hnot
  · rcases List.mem_cons.mp hu with rfl | hu
    · exact Nat.lt_irrefl _ hlt
    · exact Nat.lt_asymm hlt ((List.pairwise_cons.mp (List.pairwise_append.mp hsorted).2.1).1 u hu)

theorem searchPhase_eq_some {text : String} {t : PhaseToken} (ht : t ∈ phaseTokens) :
    searchPhase text = some t ↔ First (·.Found text.toList) t := by
  refine ⟨fun h => (searchPhase_first h).2, fun h => ?_⟩
  cases hsearch : searchPhase text with
  | none => exact absurd h.1 (searchPhase_eq_none.mp hsearch t ht)
  | some u =>
    obtain ⟨hu, hfirst⟩ := searchPhase_first hsearch
    rw [hfirst.unique hu ht h]

theorem truthy_search (text : Option String) :
    (if Server.truthy text then searchPhase (text.getD "") else none) = text.bind searchPhase := by
  cases text with
  | none => rfl
  | some text =>
    by_cases hempty : text = ""
    · subst hempty
      rfl
    · simp [Server.truthy, hempty]

/-- What decides the phase of an entity. -/
abbrev answer (id : String) (n : Option String) : Option PhaseToken :=
  (searchPhase id).or (n.bind searchPhase)

/-- The phase of an entity is looked for in its id, and then in its name. -/
theorem inferPhase_pair (id : String) (n : Option String) :
    inferPhase [some id, n] = (answer id n).elim "1p" (·.phase) := by
  simp only [answer, inferPhase, truthy_search, List.findSome?_cons, List.findSome?_nil, Option.bind_some]
  cases searchPhase id with
  | some t => rfl
  | none =>
    cases n.bind searchPhase <;> rfl

theorem searchPhase_name {n : Option String} {t : PhaseToken} (ht : t ∈ phaseTokens) :
    n.bind searchPhase = some t ↔ First (fun u => ∃ name ∈ n, u.Found name.toList) t := by
  cases n with
  | none => exact iff_of_false (by simp) fun h => by simpa using h.1
  | some name =>
    rw [Option.bind_some, searchPhase_eq_some ht]
    exact First.congr ht fun u _ => by simp

theorem answer_mem {id : String} {n : Option String} {t : PhaseToken} (h : answer id n = some t) :
    t ∈ phaseTokens := by
  rcases Option.or_eq_some_iff.mp h with hid | ⟨-, hname⟩
  · exact (searchPhase_first hid).1
  · obtain ⟨name, -, hname⟩ := Option.bind_eq_some_iff.mp hname
    exact (searchPhase_first hname).1

/-- The phases are told apart from each other and from a single phase. -/
theorem answer_inj {a b : Option PhaseToken} (ha : ∀ t, a = some t → t ∈ phaseTokens)
    (hb : ∀ t, b = some t → t ∈ phaseTokens) :
    a.elim "1p" (·.phase) = b.elim "1p" (·.phase) ↔ a = b := by
  have hphases : ∀ t ∈ phaseTokens, t.phase ≠ "1p" ∧ ∀ u ∈ phaseTokens, t.phase = u.phase → t = u := by decide
  refine ⟨fun h => ?_, fun h => h ▸ rfl⟩
  cases a with
  | none =>
    cases b with
    | none => rfl
    | some u => exact absurd h.symm (hphases u (hb u rfl)).1
  | some t =>
    cases b with
    | none => exact absurd h (hphases t (ha t rfl)).1
    | some u => rw [(hphases t (ha t rfl)).2 u (hb u rfl) h]

section Domain

variable (x : String) (n : Option String)

theorem searchPhase_sensor {t : PhaseToken} (ht : t ∈ phaseTokens) :
    searchPhase ("sensor." ++ x) = some t ↔ First (·.Inside x.toList) t := by
  rw [searchPhase_eq_some ht]
  exact First.congr ht fun u hu => PhaseToken.found_sensor hu x

theorem searchPhase_sensor_none :
    searchPhase ("sensor." ++ x) = none ↔ ∀ t ∈ phaseTokens, ¬ t.Inside x.toList := by
  rw [searchPhase_eq_none]
  exact forall₂_congr fun t ht => not_congr (PhaseToken.found_sensor ht x)

/-- A phase that stands inside leaves the search one at least as early. -/
theorem searchPhase_earlier {t : PhaseToken} :
    (∃ u ∈ phaseTokens, u.rank < t.rank ∧ u.Inside x.toList) ↔
      ∃ u, searchPhase ("sensor." ++ x) = some u ∧ u.rank < t.rank := by
  constructor
  · rintro ⟨u, hu, hlt, hinside⟩
    cases hsearch : searchPhase ("sensor." ++ x) with
    | none => exact absurd hinside ((searchPhase_sensor_none x).mp hsearch u hu)
    | some q =>
      have hq := (searchPhase_first hsearch).1
      have hfirst := (searchPhase_sensor x hq).mp hsearch
      refine ⟨q, rfl, ?_⟩
      rcases rank_trichotomy hq hu with hqu | rfl | huq
      · exact Nat.lt_trans hqu hlt
      · exact hlt
      · exact absurd hinside (hfirst.2 u hu huq)
  · rintro ⟨u, hsearch, hlt⟩
    have hu := (searchPhase_first hsearch).1
    exact ⟨u, hu, hlt, ((searchPhase_sensor x hu).mp hsearch).1⟩

/-- Without the domain the search finds the token that leads, or one inside of an earlier phase. -/
theorem searchPhase_leads {t : PhaseToken} (ht : t ∈ phaseTokens) (h : t.Leads isSeparator x.toList) :
    searchPhase x = some (((searchPhase ("sensor." ++ x)).filter (·.rank < t.rank)).getD t) := by
  have hfound : ∀ u ∈ phaseTokens, u.Found x.toList → u = t ∨ u.Inside x.toList := fun u hu hf =>
    hf.imp_left fun hleads => PhaseToken.leads_unique hu ht hleads h
  cases hsearch : searchPhase ("sensor." ++ x) with
  | none =>
    refine (searchPhase_eq_some ht).mpr ⟨Or.inl h, fun u hu hlt hf => ?_⟩
    rcases hfound u hu hf with rfl | hinside
    · exact Nat.lt_irrefl _ hlt
    · exact (searchPhase_sensor_none x).mp hsearch u hu hinside
  | some q =>
    have hq := (searchPhase_first hsearch).1
    have hfirst := (searchPhase_sensor x hq).mp hsearch
    by_cases hlt : q.rank < t.rank
    · simp only [Option.filter_some, hlt, decide_true, if_true, Option.getD_some]
      refine (searchPhase_eq_some hq).mpr ⟨Or.inr hfirst.1, fun u hu hlt' hf => ?_⟩
      rcases hfound u hu hf with rfl | hinside
      · exact Nat.lt_asymm hlt hlt'
      · exact hfirst.2 u hu hlt' hinside
    · simp only [Option.filter_some, hlt, decide_false, Bool.false_eq_true, if_false, Option.getD_none]
      refine (searchPhase_eq_some ht).mpr ⟨Or.inl h, fun u hu hlt' hf => ?_⟩
      rcases hfound u hu hf with rfl | hinside
      · exact Nat.lt_irrefl _ hlt'
      · exact hfirst.2 u hu (by omega) hinside

theorem searchPhase_unled (h : ∀ t ∈ phaseTokens, ¬ t.Leads isSeparator x.toList) :
    searchPhase x = searchPhase ("sensor." ++ x) := by
  have hfound : ∀ t ∈ phaseTokens, t.Found x.toList ↔ t.Inside x.toList := fun t ht => or_iff_right (h t ht)
  cases hsearch : searchPhase ("sensor." ++ x) with
  | none =>
    refine searchPhase_eq_none.mpr fun t ht hf => ?_
    exact (searchPhase_sensor_none x).mp hsearch t ht ((hfound t ht).mp hf)
  | some q =>
    have hq := (searchPhase_first hsearch).1
    exact (searchPhase_eq_some hq).mpr ((First.congr hq hfound).mpr ((searchPhase_sensor x hq).mp hsearch))

/-- A token that begins the object id is not needed. A further token or else the name tells its phase, or
an earlier phase goes before it, where it is followed by neither an underscore nor the end. -/
def Dispensable (t : PhaseToken) : Prop :=
  First (·.Inside x.toList) t ∨
    ((∀ u ∈ phaseTokens, ¬ u.Inside x.toList) ∧ First (fun u => ∃ name ∈ n, u.Found name.toList) t) ∨
    (¬ t.Leads (· = '_') x.toList ∧ ∃ u ∈ phaseTokens, u.rank < t.rank ∧ u.Inside x.toList)

theorem dispensable_iff {t : PhaseToken} (ht : t ∈ phaseTokens) :
    Dispensable x n t ↔
      searchPhase ("sensor." ++ x) = some t ∨
        (searchPhase ("sensor." ++ x) = none ∧ n.bind searchPhase = some t) ∨
        (¬ t.Leads (· = '_') x.toList ∧ ∃ u, searchPhase ("sensor." ++ x) = some u ∧ u.rank < t.rank) := by
  rw [Dispensable, searchPhase_sensor x ht, searchPhase_sensor_none, searchPhase_name ht, searchPhase_earlier]

/-- What both searches answer together with the name decides both answers. -/
theorem blind_iff {t : PhaseToken} (ht : t ∈ phaseTokens) (h : t.Leads isSeparator x.toList) :
    (answer ("sensor." ++ x) n = answer x n ∧
        (t.Leads (· = '_') x.toList → answer ("sensor." ++ x) n = some t)) ↔
      Dispensable x n t := by
  rw [dispensable_iff x n ht, answer, answer, searchPhase_leads x ht h]
  cases hsearch : searchPhase ("sensor." ++ x) with
  | none =>
    simp only [Option.filter_none, Option.getD_none, Option.none_or, Option.some_or, reduceCtorEq, false_or,
      true_and, false_and, exists_false, and_false, or_false]
    exact and_iff_left_of_imp fun hname _ => hname
  | some q =>
    by_cases hlt : q.rank < t.rank
    · have hne : q ≠ t := fun heq => Nat.lt_irrefl _ (heq ▸ hlt)
      simp [Option.filter_some, hlt, hne]
    · simp only [Option.filter_some, hlt, decide_false, Bool.false_eq_true, if_false, Option.getD_none,
        Option.some_or, Option.some.injEq, reduceCtorEq, false_and, exists_eq_left', and_false,
        or_false]
      exact and_iff_left_of_imp fun heq _ => heq

/-- Phase inference is blind to the domain of an entity exactly where a token that begins the object id
is not needed. -/
theorem domain_blind_iff :
    (inferPhase [some ("sensor." ++ x), n] = inferPhase [some x, n] ∧
        ∀ t ∈ phaseTokens, t.Leads (· = '_') x.toList →
          inferPhase [some ("sensor." ++ x), n] = t.phase) ↔
      ∀ t ∈ phaseTokens, t.Leads isSeparator x.toList → Dispensable x n t := by
  have hunderscore : ∀ t : PhaseToken, t.Leads (· = '_') x.toList → t.Leads isSeparator x.toList := fun t =>
    PhaseToken.leads_mono fun c hc => by simp [isSeparator, of_decide_eq_true hc]
  have hsame : inferPhase [some ("sensor." ++ x), n] = inferPhase [some x, n] ↔
      answer ("sensor." ++ x) n = answer x n := by
    rw [inferPhase_pair, inferPhase_pair]
    exact answer_inj (fun _ => answer_mem) fun _ => answer_mem
  have hgiven : ∀ t ∈ phaseTokens, inferPhase [some ("sensor." ++ x), n] = t.phase ↔
      answer ("sensor." ++ x) n = some t := fun t ht => by
    rw [inferPhase_pair]
    exact answer_inj (fun _ => answer_mem) fun u hu => Option.some_inj.mp hu ▸ ht
  rw [hsame]
  by_cases hled : ∃ t ∈ phaseTokens, t.Leads isSeparator x.toList
  · obtain ⟨t, ht, hleads⟩ := hled
    have honly : ∀ u ∈ phaseTokens, u.Leads isSeparator x.toList → u = t := fun u hu hu' =>
      PhaseToken.leads_unique hu ht hu' hleads
    have hblind := blind_iff x n ht hleads
    constructor
    · rintro ⟨hanswer, htoken⟩ u hu hu'
      obtain rfl := honly u hu hu'
      exact hblind.mp ⟨hanswer, fun h => (hgiven u hu).mp (htoken u hu h)⟩
    · intro hdispensable
      obtain ⟨hanswer, htoken⟩ := hblind.mpr (hdispensable t ht hleads)
      refine ⟨hanswer, fun u hu hu' => ?_⟩
      obtain rfl := honly u hu (hunderscore u hu')
      exact (hgiven u hu).mpr (htoken hu')
  · have hunled : ∀ t ∈ phaseTokens, ¬ t.Leads isSeparator x.toList := fun t ht h => hled ⟨t, ht, h⟩
    refine iff_of_true ⟨?_, fun t ht h => ?_⟩ fun t ht h => ?_
    · rw [answer, answer, searchPhase_unled x hunled]
    · exact absurd (hunderscore t h) (hunled t ht)
    · exact absurd h (hunled t ht)

end Domain

/-- A meter whose entities are named after its phases, and after nothing else. -/
def threePhaseMeter : List RegistryEntry :=
  ["l1_voltage", "l2_voltage", "l3_voltage"].map fun objectId =>
    { domain := "sensor", objectId, deviceClass := some "voltage" }

theorem leading_token_missed :
    inferPhase [some ("sensor." ++ "l1_voltage"), some "sensor.l1_voltage"] = "1p" ∧
      inferPhase [some "l1_voltage", some "sensor.l1_voltage"] = "L1" ∧
      (proposeMapping (discover (fun _ => none) threePhaseMeter)).map
          (fun (channel, entries) => (channel, entries.map (·.phase))) =
        [("voltage_v", [some "1p", some "1p", some "1p"])] :=
  ⟨by decide, by decide, by decide +kernel⟩

end GridWitness.Client
