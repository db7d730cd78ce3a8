import GridWitness.Client.JsonNesting
import GridWitness.Client.QueueLaws

namespace GridWitness.Client

open Server Library JsonText

/-- A buffer of JSON texts. -/
def jsonLines (floats : FloatText) : Codec (List Char) :=
  ⟨dumps floats, fun l => .ofOption (loads floats l), fun v => by rw [loads_dumps]; rfl⟩

variable {py : Python} {codec : Codec (List Char)} {floats : FloatText}

theorem jsonLines_undecodable {l : List Char} (h : loads floats l = none) :
    (jsonLines floats).loads l = .undecodable := by
  rw [jsonLines]
  simp only [h, Loading.ofOption]

/-- The line of a row that was buffered at some time. -/
def Codec.line (codec : Codec (List Char)) (e : Captured × Stamp py) : List Char :=
  codec.record e.2.text e.1

/-- The text of a file whose lines have all been ended. -/
def ended (ls : List (List Char)) : List Char := ls.flatMap (· ++ ['\n'])

/-- The rows whose text, with or without its line break, lies in the first characters of their
file. -/
def completed (codec : Codec (List Char)) : List (Captured × Stamp py) → Nat →
    List (Captured × Stamp py)
  | [], _ => []
  | e :: es, k =>
    if (codec.line e).length ≤ k then e :: completed codec es (k - ((codec.line e).length + 1))
    else []

/-- The readers of a file find certain rows in it, in their order: a peek returns them, a commit
leaves all but the first, and a prune keeps of them what it would keep of a file of just these. -/
structure TextBuffer.Survives (py : Python) (codec : Codec (List Char)) (b : TextBuffer)
    (entries : List (Captured × Stamp py)) : Prop where
  peek : ∀ n, b.toLines.peek codec n = .ok ((entries.map (·.1.item)).take n)
  commit : ∀ n, (entries.map (·.1.item)).drop n <:+ codec.wellFormed (b.toLines.commit n).lines
  prune : ∀ now, (b.toLines.prune codec py now).map (·.1.lines) =
    ((⟨some (entries.map codec.line), b.maxRows, b.maxAgeH⟩ : DiskBuffer (List Char)).prune codec py
      now).map (·.1.lines)

/-- The rows of a sequence of appends. -/
def appended (appends : List (List Captured × Stamp py)) : List (Captured × Stamp py) :=
  appends.flatMap fun a => a.1.map (·, a.2)

section Lines

variable {cs l : List Char} {ls : List (List Char)}

theorem readLines_cons {c : Char} (hc : 32 ≤ c.toNat) :
    readLines (c :: cs) = prepend c (readLines cs) := by
  have hreturn : c ≠ '\r' := by
    rintro rfl
    revert hc
    decide
  have hbreak : c ≠ '\n' := by
    rintro rfl
    revert hc
    decide
  rw [readLines.eq_def]
  split <;> simp_all

theorem readLines_line (h : Printed l) : readLines (l ++ '\n' :: cs) = l :: readLines cs := by
  induction l with
  | nil => rw [List.nil_append, readLines]
  | cons c l ih =>
    obtain ⟨hc, hl⟩ := List.forall_mem_cons.mp h
    rw [List.cons_append, readLines_cons hc, ih hl, prepend]

theorem readLines_unended (h : Printed l) (hl : l ≠ []) : readLines l = [l] := by
  induction l with
  | nil => exact absurd rfl hl
  | cons c l ih =>
    obtain ⟨hc, hprinted⟩ := List.forall_mem_cons.mp h
    rw [readLines_cons hc]
    cases l with
    | nil => rw [readLines, prepend]
    | cons d l => rw [ih hprinted (List.cons_ne_nil d l), prepend]

theorem readLines_ended_append (h : ∀ l ∈ ls, Printed l) (cs : List Char) :
    readLines (ended ls ++ cs) = ls ++ readLines cs := by
  induction ls with
  | nil => rfl
  | cons l ls ih =>
    obtain ⟨hl, hls⟩ := List.forall_mem_cons.mp h
    have htext : ended (l :: ls) ++ cs = l ++ '\n' :: (ended ls ++ cs) := by simp [ended]
    rw [htext, readLines_line hl, ih hls, List.cons_append]

theorem readLines_ended (h : ∀ l ∈ ls, Printed l) : readLines (ended ls) = ls := by
  have hlines := readLines_ended_append h []
  rwa [List.append_nil, readLines, List.append_nil] at hlines

end Lines

section Cut

variable {e : Captured × Stamp py} {done : List (Captured × Stamp py)} {cs : List Char}

theorem ended_append (ls ms : List (List Char)) : ended (ls ++ ms) = ended ls ++ ended ms :=
  List.flatMap_append

theorem ended_cons : ended ((e :: done).map codec.line) =
    codec.line e ++ '\n' :: ended (done.map codec.line) := by
  simp [ended]

theorem line_head (floats : FloatText) (e : Captured × Stamp py) :
    ∃ cs, (jsonLines floats).line e = '{' :: '"' :: 'k' :: cs := ⟨_, rfl⟩

theorem line_ne_nil (e : Captured × Stamp py) : (jsonLines floats).line e ≠ [] := by
  obtain ⟨cs, hline⟩ := line_head floats e
  rw [hline]
  exact List.cons_ne_nil _ _

theorem printed_line (e : Captured × Stamp py) : Printed ((jsonLines floats).line e) :=
  printed_dumps _

/-- Where the text of a file can be cut off: between two lines, before the line break of one, or
inside a record. -/
inductive Cut (codec : Codec (List Char)) : List Char → List (Captured × Stamp py) → Prop
  | whole (done : List (Captured × Stamp py)) : Cut codec (ended (done.map codec.line)) done
  | unended (done : List (Captured × Stamp py)) (e : Captured × Stamp py) :
      Cut codec (ended (done.map codec.line) ++ codec.line e) (done ++ [e])
  | torn (done : List (Captured × Stamp py)) (e : Captured × Stamp py) (front back : List Char) :
      front ≠ [] → back ≠ [] → front ++ back = codec.line e →
      Cut codec (ended (done.map codec.line) ++ front) done

theorem Cut.cons (h : Cut codec cs done) (e : Captured × Stamp py) :
    Cut codec (codec.line e ++ '\n' :: cs) (e :: done) := by
  cases h with
  | whole =>
    rw [← ended_cons]
    exact .whole (e :: done)
  | unended done e' =>
    rw [← List.cons_append, ← List.append_assoc, ← ended_cons]
    exact .unended (e :: done) e'
  | torn done e' front back hfront hback htext =>
    rw [← List.cons_append, ← List.append_assoc, ← ended_cons]
    exact .torn (e :: done) e' front back hfront hback htext

/-- Every place to cut the text at is one of these. -/
theorem cut_take (hline : ∀ e : Captured × Stamp py, codec.line e ≠ [])
    (entries : List (Captured × Stamp py)) (k : Nat) :
    Cut codec ((ended (entries.map codec.line)).take k) (completed codec entries k) := by
  induction entries generalizing k with
  | nil =>
    rw [completed, List.map_nil, ended, List.flatMap_nil, List.take_nil]
    exact .whole []
  | cons e es ih =>
    rw [ended_cons, completed]
    rcases lt_trichotomy k (codec.line e).length with hk | rfl | hk
    · rw [if_neg (Nat.not_le.mpr hk), List.take_append_of_le_length hk.le]
      by_cases hzero : k = 0
      · subst hzero
        exact .whole []
      · refine .torn [] e _ ((codec.line e).drop k) ?_ ?_ (List.take_append_drop _ _)
        · simp [hzero, hline e]
        · simpa using hk
    · have hnone : completed codec es ((codec.line e).length - ((codec.line e).length + 1)) = [] := by
        rw [Nat.sub_eq_zero_of_le (Nat.le_succ _)]
        cases es with
        | nil => rfl
        | cons e' es =>
          rw [completed, if_neg]
          simpa using hline e'
      rw [if_pos le_rfl, hnone, List.take_left]
      exact .unended [] e
    · obtain ⟨k, rfl⟩ := Nat.exists_eq_add_of_lt hk
      have hrest : (codec.line e).length + k + 1 - ((codec.line e).length + 1) = k := by omega
      rw [if_pos hk.le, hrest, Nat.add_assoc, List.take_length_add_append, List.take_succ_cons]
      exact (ih k).cons e

end Cut

section Survival

variable {b : TextBuffer} {entries : List (Captured × Stamp py)} {ls tail : List (List Char)}

theorem wellFormed_lines (es : List (Captured × Stamp py)) :
    codec.wellFormed (es.map codec.line) = es.map (·.1.item) := by
  simp [Codec.wellFormed, List.filterMap_map, Codec.line, Reading.toOption, Function.comp_def]

theorem wellFormed_torn (h : ∀ l ∈ tail, codec.loads l = .undecodable) : codec.wellFormed tail = [] := by
  refine List.filterMap_eq_nil_iff.mpr fun l hl => ?_
  rw [Codec.item_torn (h l hl), Reading.toOption]

/-- A prune passes over lines that cannot be read. -/
theorem fresh_append_torn (h : ∀ l ∈ tail, codec.loads l = .undecodable) (cutoff : Time) :
    codec.fresh py cutoff (ls ++ tail) = codec.fresh py cutoff ls := by
  induction ls with
  | nil =>
    induction tail with
    | nil => rfl
    | cons l tail ih =>
      obtain ⟨hl, htail⟩ := List.forall_mem_cons.mp h
      have hts : codec.bufferedTs py l = .skipped := by rw [Codec.bufferedTs, hl]
      simp only [List.nil_append] at ih ⊢
      simp only [Codec.fresh, hts, ih htail]
  | cons l ls ih => simp only [List.cons_append, Codec.fresh, ih]

/-- Rows survive on lines of their own, whatever unreadable lines stand behind them. -/
theorem survives_of_lines (hlines : b.toLines.lines = entries.map codec.line ++ tail)
    (htail : ∀ l ∈ tail, codec.loads l = .undecodable) : b.Survives py codec entries where
  peek n := by
    have hraise : ∀ l ∈ b.toLines.lines, ∀ e, codec.item l ≠ .raised e := by
      intro l hl
      rw [hlines] at hl
      rcases List.mem_append.mp hl with hl | hl
      · obtain ⟨e, -, rfl⟩ := List.mem_map.mp hl
        exact Codec.RecordOrTorn.item_ne_raised (.inr ⟨_, Codec.item_record _ _⟩)
      · exact Codec.RecordOrTorn.item_ne_raised (.inl (htail l hl))
    rw [DiskBuffer.peek, Codec.items_wellFormed hraise, hlines, Codec.wellFormed_append,
      wellFormed_lines, wellFormed_torn htail, List.append_nil]
  commit n := by
    have hdrop : ∀ l ∈ tail.drop (n - (entries.map codec.line).length), codec.loads l = .undecodable :=
      fun l hl => htail l (List.mem_of_mem_drop hl)
    have hleft : codec.wellFormed (b.toLines.commit n).lines = (entries.map (·.1.item)).drop n := by
      rw [DiskBuffer.lines_commit, hlines, List.drop_append, Codec.wellFormed_append,
        wellFormed_torn hdrop, List.append_nil, ← List.map_drop, ← List.map_drop, wellFormed_lines]
    exact hleft ▸ List.suffix_rfl
  prune now := by
    rw [DiskBuffer.prune_lines, DiskBuffer.prune_lines, hlines, fresh_append_torn htail]
    rfl

theorem survives_whole (hlines : b.toLines.lines = entries.map codec.line) :
    b.Survives py codec entries := by
  rw [← List.append_nil (entries.map codec.line)] at hlines
  exact survives_of_lines hlines fun l hl => by cases hl

/-- Where rows share a line that cannot be read, not all of them survive. -/
theorem not_survives_of_lines (hlines : b.toLines.lines = ls)
    (hraise : ∀ l ∈ ls, codec.RecordOrTorn l)
    (hfew : (codec.wellFormed ls).length < entries.length) : ¬ b.Survives py codec entries := by
  intro hsurvives
  have hpeek := hsurvives.peek entries.length
  rw [DiskBuffer.peek, hlines, Codec.items_wellFormed fun l hl => (hraise l hl).item_ne_raised] at hpeek
  have hlength := congrArg List.length (Except.ok.inj hpeek)
  rw [List.length_take, List.length_take, List.length_map] at hlength
  omega

end Survival

theorem appends_text (text : List Char) (maxRows maxAgeH : Nat)
    (appends : List (List Captured × Stamp py)) :
    appends.foldl (fun b a => TextBuffer.append codec b a.1 a.2.text) ⟨some text, maxRows, maxAgeH⟩ =
      ⟨some (text ++ ended ((appended appends).map codec.line)), maxRows, maxAgeH⟩ := by
  induction appends generalizing text with
  | nil => simp [appended, ended]
  | cons a appends ih =>
    have hstep : TextBuffer.append codec ⟨some text, maxRows, maxAgeH⟩ a.1 a.2.text =
        ⟨some (text ++ ended ((a.1.map (·, a.2)).map codec.line)), maxRows, maxAgeH⟩ := by
      rw [TextBuffer.append]
      split
      · next hnone => simp [List.isEmpty_iff.mp hnone, ended]
      · simp [ended, List.flatMap_map, Codec.line]
    rw [List.foldl_cons, hstep, ih, List.append_assoc, ← ended_append, ← List.map_append]
    rfl

section Tear

variable {e e' : Captured × Stamp py} {done more : List (Captured × Stamp py)}
  {front : List Char} {maxRows maxAgeH : Nat}

theorem getLast?_ended (ls : List (List Char)) : ∀ c, (ended ls).getLast? = some c → c = '\n' := by
  intro c hc
  rcases List.eq_nil_or_concat ls with rfl | ⟨ls, l, rfl⟩
  · cases hc
  · rw [List.concat_eq_append, ended_append] at hc
    simp only [ended, List.flatMap_cons, List.flatMap_nil, List.append_nil, ← List.append_assoc,
      List.getLast?_concat, Option.some.injEq] at hc
    exact hc.symm

/-- A line that is not ended shows at the end of the text. -/
theorem getLast?_front (hfront : front ≠ []) (hprinted : Printed front) (text : List Char) :
    ¬ ∀ c, (text ++ front).getLast? = some c → c = '\n' := by
  intro hbreak
  have hlast := hprinted _ (List.getLast_mem hfront)
  rw [hbreak (front.getLast hfront)] at hlast
  · revert hlast
    decide
  · rw [List.getLast?_append_of_ne_nil _ hfront, List.getLast?_eq_getLast_of_ne_nil hfront]

variable (hline : ∀ e : Captured × Stamp py, Printed (codec.line e))
include hline

theorem printed_lines (es : List (Captured × Stamp py)) : ∀ l ∈ es.map codec.line, Printed l := by
  intro l hl
  obtain ⟨e, -, rfl⟩ := List.mem_map.mp hl
  exact hline e

theorem lines_ended (es : List (Captured × Stamp py)) :
    (⟨some (ended (es.map codec.line)), maxRows, maxAgeH⟩ : TextBuffer).toLines.lines =
      es.map codec.line :=
  readLines_ended (printed_lines hline es)

theorem lines_unended (hfront : front ≠ []) (hprinted : Printed front) :
    (⟨some (ended (done.map codec.line) ++ front), maxRows, maxAgeH⟩ : TextBuffer).toLines.lines =
      done.map codec.line ++ [front] := by
  have hlines := readLines_ended_append (printed_lines hline done) front
  rw [readLines_unended hprinted hfront] at hlines
  exact hlines

/-- The next row is written behind the line that was not ended. -/
theorem lines_joined (hprinted : Printed front) :
    (⟨some (ended (done.map codec.line) ++ front ++ ended ((e' :: more).map codec.line)), maxRows,
      maxAgeH⟩ : TextBuffer).toLines.lines =
      done.map codec.line ++ (front ++ codec.line e') :: more.map codec.line := by
  have hlines := readLines_ended_append (printed_lines hline done)
    ((front ++ codec.line e') ++ '\n' :: ended (more.map codec.line))
  rw [readLines_line (hprinted.append (hline e')), readLines_ended (printed_lines hline more),
    List.append_assoc, ← ended_cons, ← List.append_assoc] at hlines
  exact hlines

/-- A row that was appended to a line that was not ended is lost. -/
theorem not_survives_joined (hprinted : Printed front) {entries : List (Captured × Stamp py)}
    (hjoined : codec.loads (front ++ codec.line e') = .undecodable)
    (hfew : done.length + more.length < entries.length) :
    ¬ (⟨some (ended (done.map codec.line) ++ front ++ ended ((e' :: more).map codec.line)), maxRows,
      maxAgeH⟩ : TextBuffer).Survives py codec entries := by
  have hrecord : ∀ es : List (Captured × Stamp py), ∀ l ∈ es.map codec.line,
      codec.RecordOrTorn l := by
    intro es l hl
    obtain ⟨e, -, rfl⟩ := List.mem_map.mp hl
    exact .inr ⟨_, Codec.item_record _ _⟩
  have htorn : codec.wellFormed [front ++ codec.line e'] = [] :=
    wellFormed_torn fun l hl => List.mem_singleton.mp hl ▸ hjoined
  have hfound : codec.wellFormed (done.map codec.line ++ (front ++ codec.line e') ::
      more.map codec.line) = done.map (·.1.item) ++ more.map (·.1.item) := by
    rw [← List.singleton_append, Codec.wellFormed_append, Codec.wellFormed_append, htorn, wellFormed_lines,
      wellFormed_lines, List.nil_append]
  refine not_survives_of_lines (lines_joined hline hprinted) (fun l hl => ?_) ?_
  · rcases List.mem_append.mp hl with hl | hl
    · exact hrecord done l hl
    · rcases List.mem_cons.mp hl with rfl | hl
      · exact .inl hjoined
      · exact hrecord more l hl
  · rw [hfound, List.length_append, List.length_map, List.length_map]
    exact hfew

/-- What a cut inside a line leaves survives exactly when nothing follows it. -/
theorem survives_front_iff (hfront : front ≠ []) (hprinted : Printed front)
    {found : List (Captured × Stamp py)} (hlength : done.length ≤ found.length)
    (hjoined : ∀ e' : Captured × Stamp py, codec.loads (front ++ codec.line e') = .undecodable)
    (hfound : (⟨some (ended (done.map codec.line) ++ front), maxRows, maxAgeH⟩ :
      TextBuffer).Survives py codec found) :
    (⟨some (ended (done.map codec.line) ++ front ++ ended (more.map codec.line)), maxRows, maxAgeH⟩ :
      TextBuffer).Survives py codec (found ++ more) ↔
      (∀ c, (ended (done.map codec.line) ++ front).getLast? = some c → c = '\n') ∨ more = [] := by
  rw [or_iff_right (getLast?_front hfront hprinted _)]
  cases more with
  | nil =>
    refine iff_of_true ?_ rfl
    have hnil : ended [] = [] := rfl
    rwa [List.map_nil, hnil, List.append_nil, List.append_nil]
  | cons e' more =>
    refine iff_of_false (not_survives_joined hline hprinted (hjoined e') ?_) (List.cons_ne_nil e' more)
    rw [List.length_append, List.length_cons]
    omega

end Tear

/-- The text of a buffer, cut off and appended to, holds every row that was complete and every row
that was appended exactly when the cut left no line without its end, or nothing was appended. -/
theorem torn_survives_iff (py : Python) (floats : FloatText) (entries : List (Captured × Stamp py))
    (k maxRows maxAgeH : Nat) (appends : List (List Captured × Stamp py)) :
    let codec := jsonLines floats
    let cut := (ended (entries.map codec.line)).take k
    let after := appends.foldl (fun b a => TextBuffer.append codec b a.1 a.2.text)
      ⟨some cut, maxRows, maxAgeH⟩
    after.Survives py codec (completed codec entries k ++ appended appends) ↔
      (∀ c, cut.getLast? = some c → c = '\n') ∨ ∀ a ∈ appends, a.1 = [] := by
  intro codec cut after
  have hafter : after = ⟨some (cut ++ ended ((appended appends).map codec.line)), maxRows, maxAgeH⟩ :=
    appends_text cut maxRows maxAgeH appends
  have hcut : Cut codec cut (completed codec entries k) := cut_take line_ne_nil entries k
  have hline : ∀ e : Captured × Stamp py, Printed (codec.line e) := printed_line
  have hnone : appended appends = [] ↔ ∀ a ∈ appends, a.1 = [] := by
    simp [appended, List.flatMap_eq_nil_iff]
  rw [← hnone, hafter]
  generalize cut = text at hcut ⊢
  generalize completed codec entries k = found at hcut ⊢
  generalize appended appends = more
  cases hcut with
  | whole done =>
    refine iff_of_true ?_ (.inl (getLast?_ended _))
    rw [← ended_append, ← List.map_append]
    refine survives_whole ?_
    rw [lines_ended hline]
  | unended done e =>
    refine survives_front_iff hline (line_ne_nil e) (hline e) ?_ (fun e' => jsonLines_undecodable loads_append) ?_
    · rw [List.length_append]
      omega
    · refine survives_whole ?_
      rw [lines_unended hline (line_ne_nil e) (hline e), List.map_append]
      rfl
  | torn done e front back hfront hback htext =>
    have hprinted : Printed front := fun c hc => hline e c (htext ▸ List.mem_append_left back hc)
    refine survives_front_iff hline hfront hprinted le_rfl (fun e' => ?_) ?_
    · obtain ⟨cs, hcs⟩ := line_head floats e'
      exact jsonLines_undecodable (loads_front_append htext hfront hback hcs)
    · refine survives_of_lines (lines_unended hline hfront hprinted) fun l hl => ?_
      rw [List.mem_singleton.mp hl]
      exact jsonLines_undecodable (loads_front htext hfront hback)

/-- A reading of the mains that was buffered at nine. -/
def atNine : Captured × Stamp .july :=
  (DiskBuffer.mains, ⟨"2026-07-10T09:00:00.000Z", 1783674000000000, rfl⟩)

example : String.ofList ((jsonLines .whole).line atNine) =
    "\x7b\"kind\": \"electrical\", \"row\": \x7b\"frequency_hz\": 50\x7d, " ++
      "\"buffered_ts\": \"2026-07-10T09:00:00.000Z\"\x7d" := by
  decide +kernel

/-- Cut off before its line break, a complete row is lost with the one appended next. -/
theorem complete_row_lost :
    let codec := jsonLines .whole
    let cut := (ended [codec.line atNine]).take (codec.line atNine).length
    let after := TextBuffer.append codec ⟨some cut, 250000, 72⟩ [DiskBuffer.mains] atNine.2.text
    completed codec [atNine] (codec.line atNine).length = [atNine] ∧
      after.toLines.peek codec 2 = .ok [] ∧ ¬ after.Survives .july codec [atNine, atNine] := by
  intro codec cut after
  have hline : ∀ e : Captured × Stamp .july, Printed (codec.line e) := printed_line
  have hcompleted : completed codec [atNine] (codec.line atNine).length = [atNine] := by
    rw [completed, if_pos le_rfl, completed]
  have htorn : codec.loads (codec.line atNine ++ codec.line atNine) = .undecodable :=
    jsonLines_undecodable loads_append
  have hcut : cut = codec.line atNine := List.take_left
  have hafter : after = ⟨some (ended (([] : List (Captured × Stamp .july)).map codec.line) ++
      codec.line atNine ++ ended ([atNine].map codec.line)), 250000, 72⟩ := by
    simp only [after, hcut, TextBuffer.append, List.isEmpty_cons, Bool.false_eq_true, if_false]
    rfl
  have hlines : after.toLines.lines = [codec.line atNine ++ codec.line atNine] :=
    hafter ▸ lines_joined hline (hline atNine)
  refine ⟨hcompleted, ?_, hafter ▸ not_survives_joined hline (hline atNine) htorn (by decide)⟩
  rw [DiskBuffer.peek, hlines, Codec.items, Codec.item_torn htorn]
  rfl

end GridWitness.Client
