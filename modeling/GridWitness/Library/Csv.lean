import Mathlib.Data.List.Nodup

universe u

namespace GridWitness.Library.Csv

/-- The characters with a meaning in a CSV text, and the longest field a reader takes. -/
structure Dialect (α : Type u) where
  delimiter : α
  quotechar : α
  cr : α
  lf : α
  fieldLimit : Nat
  distinct : [delimiter, quotechar, cr, lf].Nodup

variable {α : Type u}

namespace Dialect

theorem delimiter_ne_quotechar (d : Dialect α) : d.delimiter ≠ d.quotechar :=
  fun h => by simpa [h] using d.distinct

theorem cr_ne_lf (d : Dialect α) : d.cr ≠ d.lf := fun h => by simpa [h] using d.distinct

variable [DecidableEq α] (d : Dialect α)

def newline (c : α) : Bool := c = d.lf || c = d.cr

/-- A character that puts its field in quotes. -/
def special (c : α) : Bool := c = d.delimiter || c = d.quotechar || d.newline c

end Dialect

/-- A row behind what is left of another on its line. -/
def glue : List (List α) → List (List α) → List (List α)
  | [], row => row
  | [field], [] => [field]
  | [field], next :: row => (field ++ next) :: row
  | field :: next :: torn, row => field :: glue (next :: torn) row

theorem glue_ne_nil {torn row : List (List α)} (h : torn ≠ []) : glue torn row ≠ [] := by
  match torn, row with
  | [], _ => exact absurd rfl h
  | [_], [] => exact List.cons_ne_nil _ _
  | [_], _ :: _ => exact List.cons_ne_nil _ _
  | _ :: _ :: _, _ => exact List.cons_ne_nil _ _

theorem mem_glue {torn row : List (List α)} {next field : List α}
    (h : field ∈ glue torn (next :: row)) :
    field ∈ torn ∨ field ∈ next :: row ∨ ∃ left ∈ torn, field = left ++ next := by
  induction torn with
  | nil => exact Or.inr (Or.inl h)
  | cons f torn ih =>
    cases torn with
    | nil =>
      rcases List.mem_cons.mp h with rfl | h
      · exact Or.inr (Or.inr ⟨f, List.mem_cons_self, rfl⟩)
      · exact Or.inr (Or.inl (List.mem_cons_of_mem _ h))
    | cons g torn =>
      rcases List.mem_cons.mp h with rfl | h
      · exact Or.inl List.mem_cons_self
      · rcases ih h with h | h | ⟨left, hleft, rfl⟩
        · exact Or.inl (List.mem_cons_of_mem _ h)
        · exact Or.inr (Or.inl h)
        · exact Or.inr (Or.inr ⟨left, List.mem_cons_of_mem _ hleft, rfl⟩)

variable [DecidableEq α]

section Write

variable (d : Dialect α)

/-- The text between the quotes of a field. -/
def escape (field : List α) : List α :=
  field.flatMap fun c => if c = d.quotechar then [c, c] else [c]

def quote (field : List α) : List α := d.quotechar :: (escape d field ++ [d.quotechar])

def writeField (field : List α) : List α := if field.any d.special then quote d field else field

def joinFields : List (List α) → List α
  | [] => []
  | [field] => writeField d field
  | field :: fields => writeField d field ++ d.delimiter :: joinFields fields

/-- `writerow`: an only field is quoted when it is empty, and a row ends in `\r\n`. -/
def writeRow (fields : List (List α)) : List α :=
  (if fields = [[]] then quote d [] else joinFields d fields) ++ [d.cr, d.lf]

def writeRows (rows : List (List (List α))) : List α := rows.flatMap (writeRow d)

end Write

inductive Mode
  | startRecord | startField | inField | inQuotedField | quoteInQuotedField | eatCrnl
  deriving DecidableEq

/-- A reader within a record: the fields it has saved, and the one it is at. -/
structure Reader (α : Type u) where
  mode : Mode := .startRecord
  field : List α := []
  fields : List (List α) := []

namespace Reader

variable (d : Dialect α) (r : Reader α)

def saveField : Reader α := { r with field := [], fields := r.fields ++ [r.field] }

/-- A field over the limit raises. -/
def addChar (mode : Mode) (c : α) : Option (Reader α) :=
  if r.field.length < d.fieldLimit then some { r with mode, field := r.field ++ [c] } else none

/-- A character where a field may start. -/
def startField (c : α) : Option (Reader α) :=
  if d.newline c then some { r.saveField with mode := .eatCrnl }
  else if c = d.quotechar then some { r with mode := .inQuotedField }
  else if c = d.delimiter then some { r.saveField with mode := .startField }
  else r.addChar d .inField c

def processChar (c : α) : Option (Reader α) :=
  match r.mode with
  | .startRecord => if d.newline c then some { r with mode := .eatCrnl } else r.startField d c
  | .startField => r.startField d c
  | .inField =>
    if d.newline c then some { r.saveField with mode := .eatCrnl }
    else if c = d.delimiter then some { r.saveField with mode := .startField }
    else r.addChar d .inField c
  | .inQuotedField =>
    if c = d.quotechar then some { r with mode := .quoteInQuotedField }
    else r.addChar d .inQuotedField c
  | .quoteInQuotedField =>
    if c = d.quotechar then r.addChar d .inQuotedField c
    else if c = d.delimiter then some { r.saveField with mode := .startField }
    else if d.newline c then some { r.saveField with mode := .eatCrnl }
    else r.addChar d .inField c
  -- a new-line character in the middle of a line raises
  | .eatCrnl => if d.newline c then some r else none

/-- The end of a line of the input. -/
def endLine : Reader α :=
  match r.mode with
  | .startRecord | .inQuotedField => r
  | .startField | .inField | .quoteInQuotedField => { r.saveField with mode := .startRecord }
  | .eatCrnl => { r with mode := .startRecord }

def feed (r : Reader α) : List α → Option (Reader α)
  | [] => some r
  | c :: cs => (r.processChar d c).bind (feed · cs)

end Reader

/-- What a reader yields, and whether it came to the end of its input without raising. -/
structure Reading (α : Type u) where
  rows : List (List (List α))
  complete : Bool
  deriving DecidableEq

def Reading.cons (row : List (List α)) (x : Reading α) : Reading α := { x with rows := row :: x.rows }

def Reading.append (rows : List (List (List α))) (x : Reading α) : Reading α :=
  { x with rows := rows ++ x.rows }

/-- At the end of the input an open record is still yielded. -/
def finish (r : Reader α) : Reading α :=
  ⟨if r.field ≠ [] ∨ r.mode = .inQuotedField then [r.saveField.fields] else [], true⟩

section Read

variable (d : Dialect α)

/-- The records of a sequence of lines; a quoted field may go over several. -/
def readLines : Reader α → List (List α) → Reading α
  | r, [] => finish r
  | r, line :: lines =>
    match r.feed d line with
    | none => ⟨[], false⟩
    | some r =>
      if r.endLine.mode = .startRecord then (readLines {} lines).cons r.endLine.fields
      else readLines r.endLine lines

/-- A line ends after `\n`, after `\r` unless `\n` follows, and with the text. -/
def lineEnds (c : α) (cs : List α) : Bool :=
  c = d.lf || (c = d.cr && cs.head? ≠ some d.lf) || cs.isEmpty

/-- The lines of a file, with their ends. -/
def fileLines : List α → List (List α)
  | [] => []
  | c :: cs =>
    if lineEnds d c cs then [c] :: fileLines cs
    else
      match fileLines cs with
      | [] => [[c]]
      | line :: lines => (c :: line) :: lines

def read (text : List α) : Reading α := readLines d {} (fileLines d text)

/-- The reader as it goes through a text, line ends and all. -/
def scan : Reader α → List α → Reading α
  | r, [] => finish r
  | r, c :: cs =>
    match r.processChar d c with
    | none => ⟨[], false⟩
    | some r =>
      if lineEnds d c cs then
        if r.endLine.mode = .startRecord then (scan {} cs).cons r.endLine.fields
        else scan r.endLine cs
      else scan r cs

end Read

section Scan

variable {d : Dialect α}

theorem fileLines_ne_nil {cs : List α} (h : cs ≠ []) : fileLines d cs ≠ [] := by
  cases cs with
  | nil => exact absurd rfl h
  | cons c cs =>
    rw [fileLines]
    split
    · exact List.cons_ne_nil _ _
    · split <;> exact List.cons_ne_nil _ _

theorem readLines_cons (r : Reader α) (c : α) (line : List α) (lines : List (List α)) :
    readLines d r ((c :: line) :: lines) =
      match r.processChar d c with
      | none => ⟨[], false⟩
      | some r => readLines d r (line :: lines) := by
  cases h : r.processChar d c with
  | none => simp only [readLines, Reader.feed, h, Option.bind_none]
  | some r' => simp only [readLines, Reader.feed, h, Option.bind_some]

/-- Reading the lines of a file is one pass over its text. -/
theorem readLines_fileLines (r : Reader α) (cs : List α) :
    readLines d r (fileLines d cs) = scan d r cs := by
  induction cs generalizing r with
  | nil => rfl
  | cons c cs ih =>
    rw [fileLines, scan]
    split
    · next hends =>
      rw [readLines_cons]
      cases r.processChar d c with
      | none => rfl
      | some r => simp only [readLines, Reader.feed, ih]
    · next hends =>
      have hcs : fileLines d cs ≠ [] := fileLines_ne_nil fun hnil => by simp [hnil, lineEnds] at hends
      cases hlines : fileLines d cs with
      | nil => exact absurd hlines hcs
      | cons line lines =>
        rw [readLines_cons]
        cases r.processChar d c with
        | none => rfl
        | some r => simp only [← hlines, ih]

theorem read_eq_scan (text : List α) : read d text = scan d {} text := readLines_fileLines {} text

end Scan

namespace Dialect

variable (d : Dialect α)

@[simp] theorem newline_cr : d.newline d.cr = true := by simp [newline]

@[simp] theorem newline_lf : d.newline d.lf = true := by simp [newline]

@[simp] theorem newline_quotechar : d.newline d.quotechar = false := by
  have h := d.distinct
  simp only [List.nodup_cons, List.mem_cons] at h
  simp only [newline, Bool.or_eq_false_iff, decide_eq_false_iff_not]
  grind

@[simp] theorem newline_delimiter : d.newline d.delimiter = false := by
  have h := d.distinct
  simp only [List.nodup_cons, List.mem_cons] at h
  simp only [newline, Bool.or_eq_false_iff, decide_eq_false_iff_not]
  grind

theorem ne_of_newline {c : α} (h : d.newline c = true) : c ≠ d.quotechar ∧ c ≠ d.delimiter := by
  refine ⟨?_, ?_⟩
  · rintro rfl
    simp at h
  · rintro rfl
    simp at h

theorem special_eq_false {c : α} :
    d.special c = false ↔ c ≠ d.delimiter ∧ c ≠ d.quotechar ∧ d.newline c = false := by
  simp [special, and_assoc]

end Dialect

section RoundTrip

variable {d : Dialect α} {field text cs : List α} {fields saved : List (List α)}

theorem lineEnds_eq_false {c : α} (hc : d.newline c = false) (hcs : cs ≠ []) : lineEnds d c cs = false := by
  simp only [Dialect.newline, Bool.or_eq_false_iff, decide_eq_false_iff_not] at hc
  simp [lineEnds, hc.1, hc.2, hcs]

/-- A character other than a new line moves the reader on within its line. -/
theorem scan_cons {c : α} (hc : d.newline c = false) (hcs : cs ≠ []) (r : Reader α) :
    scan d r (c :: cs) =
      match r.processChar d c with
      | none => ⟨[], false⟩
      | some r => scan d r cs := by
  rw [scan]
  cases r.processChar d c with
  | none => rfl
  | some r => simp [lineEnds_eq_false hc hcs]

/-- Within quotes a line may end anywhere. -/
theorem scan_inQuotedField {c : α} (hc : c ≠ d.quotechar) (hlength : field.length < d.fieldLimit) :
    scan d ⟨.inQuotedField, field, saved⟩ (c :: cs) =
      scan d ⟨.inQuotedField, field ++ [c], saved⟩ cs := by
  simp [scan, Reader.processChar, hc, Reader.addChar, hlength, Reader.endLine]

theorem escape_cons (c : α) (text : List α) :
    escape d (c :: text) = (if c = d.quotechar then [c, c] else [c]) ++ escape d text := rfl

theorem scan_escape (hlength : (field ++ text).length ≤ d.fieldLimit) (hcs : cs ≠ []) :
    scan d ⟨.inQuotedField, field, saved⟩ (escape d text ++ cs) =
      scan d ⟨.inQuotedField, field ++ text, saved⟩ cs := by
  induction text generalizing field with
  | nil => simp [escape]
  | cons c text ih =>
    have hshort : field.length < d.fieldLimit := by
      simp only [List.length_append, List.length_cons] at hlength
      omega
    have hrest := @ih (field ++ [c]) (by simpa using hlength)
    rw [List.append_assoc, List.singleton_append] at hrest
    by_cases hc : c = d.quotechar
    · subst hc
      have hne : escape d text ++ cs ≠ [] := List.append_ne_nil_of_right_ne_nil _ hcs
      simp only [escape_cons, if_true, List.cons_append, List.nil_append]
      rw [scan_cons d.newline_quotechar (List.cons_ne_nil _ _)]
      simp only [Reader.processChar, if_true]
      rw [scan_cons d.newline_quotechar hne]
      simp only [Reader.processChar, if_true, Reader.addChar, hshort]
      exact hrest
    · rw [escape_cons, if_neg hc, List.singleton_append, List.cons_append, scan_inQuotedField hc hshort]
      exact hrest

theorem scan_quote (hlength : text.length ≤ d.fieldLimit) (hcs : cs ≠ []) :
    scan d ⟨.startField, [], saved⟩ (quote d text ++ cs) =
      scan d ⟨.quoteInQuotedField, text, saved⟩ cs := by
  have hne : escape d text ++ d.quotechar :: cs ≠ [] :=
    List.append_ne_nil_of_right_ne_nil _ (List.cons_ne_nil _ _)
  simp only [quote, List.cons_append, List.append_assoc, List.nil_append]
  rw [scan_cons d.newline_quotechar hne]
  simp only [Reader.processChar, Reader.startField, d.newline_quotechar, if_true, Bool.false_eq_true,
    if_false]
  rw [scan_escape (by simpa using hlength) (List.cons_ne_nil _ _), scan_cons d.newline_quotechar hcs, List.nil_append]
  simp [Reader.processChar]

theorem scan_inField (hplain : ∀ c ∈ text, d.special c = false)
    (hlength : (field ++ text).length ≤ d.fieldLimit) (hcs : cs ≠ []) :
    scan d ⟨.inField, field, saved⟩ (text ++ cs) = scan d ⟨.inField, field ++ text, saved⟩ cs := by
  induction text generalizing field with
  | nil => simp
  | cons c text ih =>
    obtain ⟨hc, hplain⟩ := List.forall_mem_cons.mp hplain
    obtain ⟨hdelimiter, -, hnewline⟩ := d.special_eq_false.mp hc
    have hshort : field.length < d.fieldLimit := by
      simp only [List.length_append, List.length_cons] at hlength
      omega
    rw [List.cons_append, scan_cons hnewline (List.append_ne_nil_of_right_ne_nil _ hcs)]
    simp only [Reader.processChar, hnewline, hdelimiter, Bool.false_eq_true, if_false, Reader.addChar,
      hshort, if_true]
    rw [ih hplain (by simpa using hlength), List.append_assoc, List.singleton_append]

/-- A reader past the text of a field, whatever the text. -/
def Mode.Closes (mode : Mode) : Prop := mode = .startField ∨ mode = .inField ∨ mode = .quoteInQuotedField

/-- The text of a field is read back as the field. -/
theorem scan_writeField (saved : List (List α)) (hlength : text.length ≤ d.fieldLimit) :
    ∃ mode : Mode, mode.Closes ∧ ∀ cs ≠ [], scan d ⟨.startField, [], saved⟩ (writeField d text ++ cs) =
      scan d ⟨mode, text, saved⟩ cs := by
  by_cases hspecial : text.any d.special
  · refine ⟨.quoteInQuotedField, Or.inr (Or.inr rfl), fun cs hcs => ?_⟩
    rw [writeField, if_pos hspecial, scan_quote hlength hcs]
  · have hplain : ∀ c ∈ text, d.special c = false := by simpa using hspecial
    cases text with
    | nil => exact ⟨.startField, Or.inl rfl, fun cs _ => rfl⟩
    | cons c text =>
      refine ⟨.inField, Or.inr (Or.inl rfl), fun cs hcs => ?_⟩
      obtain ⟨hc, hplain⟩ := List.forall_mem_cons.mp hplain
      obtain ⟨hdelimiter, hquotechar, hnewline⟩ := d.special_eq_false.mp hc
      have hshort : 0 < d.fieldLimit := Nat.lt_of_lt_of_le (Nat.succ_pos _) hlength
      rw [writeField, if_neg hspecial, List.cons_append,
        scan_cons hnewline (List.append_ne_nil_of_right_ne_nil _ hcs)]
      simp only [Reader.processChar, Reader.startField, hnewline, hdelimiter, hquotechar,
        Bool.false_eq_true, if_false, Reader.addChar, List.length_nil, hshort, if_true, List.nil_append]
      exact scan_inField hplain hlength hcs

theorem scan_delimiter {mode : Mode} (h : mode.Closes) (hcs : cs ≠ []) :
    scan d ⟨mode, text, saved⟩ (d.delimiter :: cs) = scan d ⟨.startField, [], saved ++ [text]⟩ cs := by
  rw [scan_cons d.newline_delimiter hcs]
  rcases h with rfl | rfl | rfl <;>
    simp [Reader.processChar, Reader.startField, Reader.saveField, d.delimiter_ne_quotechar]

theorem processChar_cr {mode : Mode} (h : mode.Closes) :
    Reader.processChar d ⟨mode, text, saved⟩ d.cr = some ⟨.eatCrnl, [], saved ++ [text]⟩ := by
  obtain ⟨hquotechar, hdelimiter⟩ := d.ne_of_newline d.newline_cr
  rcases h with rfl | rfl | rfl <;>
    simp [Reader.processChar, Reader.startField, Reader.saveField, hquotechar, hdelimiter]

/-- `\r\n` ends a record. -/
theorem scan_crlf {mode : Mode} (h : mode.Closes) :
    scan d ⟨mode, text, saved⟩ (d.cr :: d.lf :: cs) = (scan d {} cs).cons (saved ++ [text]) := by
  have hopen : lineEnds d d.cr (d.lf :: cs) = false := by simp [lineEnds, d.cr_ne_lf]
  have hlf : lineEnds d d.lf cs = true := by simp [lineEnds]
  rw [scan, processChar_cr h]
  simp only [hopen, Bool.false_eq_true, if_false]
  rw [scan]
  simp [Reader.processChar, Reader.endLine, hlf]

/-- So does a `\r` of its own. -/
theorem scan_cr {mode : Mode} (h : mode.Closes) (hcs : cs.head? ≠ some d.lf) :
    scan d ⟨mode, text, saved⟩ (d.cr :: cs) = (scan d {} cs).cons (saved ++ [text]) := by
  have hends : lineEnds d d.cr cs = true := by simp [lineEnds, hcs]
  rw [scan, processChar_cr h]
  simp [Reader.endLine, hends]

theorem joinFields_cons (field next : List α) (fields : List (List α)) :
    joinFields d (field :: next :: fields) =
      writeField d field ++ d.delimiter :: joinFields d (next :: fields) := rfl

/-- The fields of a row are read back, however the record ends. -/
theorem scan_joinFields (rest : Reading α) (saved : List (List α))
    (hlength : ∀ field ∈ fields, field.length ≤ d.fieldLimit) (hne : fields ≠ []) (hcs : cs ≠ [])
    (hend : ∀ {mode : Mode} {text saved}, mode.Closes →
      scan d ⟨mode, text, saved⟩ cs = rest.cons (saved ++ [text])) :
    scan d ⟨.startField, [], saved⟩ (joinFields d fields ++ cs) = rest.cons (saved ++ fields) := by
  induction fields generalizing saved with
  | nil => exact absurd rfl hne
  | cons field fields ih =>
    obtain ⟨hfield, hfields⟩ := List.forall_mem_cons.mp hlength
    obtain ⟨mode, hmode, hscan⟩ := scan_writeField saved hfield
    cases fields with
    | nil => rw [joinFields, hscan _ hcs, hend hmode]
    | cons next fields =>
      rw [joinFields_cons, List.append_assoc, List.cons_append, hscan _ (List.cons_ne_nil _ _),
        scan_delimiter hmode (List.append_ne_nil_of_right_ne_nil _ hcs),
        ih _ hfields (List.cons_ne_nil _ _), List.append_assoc, List.singleton_append]

/-- A record that starts with no new line starts with a field. -/
theorem scan_startRecord {c : α} (hc : d.newline c = false) :
    scan d {} (c :: cs) = scan d ⟨.startField, [], []⟩ (c :: cs) := by
  have hsame : Reader.processChar d {} c = Reader.processChar d ⟨.startField, [], []⟩ c := by
    simp [Reader.processChar, hc, Reader.startField, Reader.addChar, Reader.saveField]
  rw [scan, scan, hsame]

theorem writeField_head (text : List α) :
    writeField d text = [] ∨ ∃ c cs, writeField d text = c :: cs ∧ d.newline c = false := by
  by_cases hspecial : text.any d.special
  · exact Or.inr ⟨d.quotechar, _, by rw [writeField, if_pos hspecial, quote], d.newline_quotechar⟩
  · rw [writeField, if_neg hspecial]
    cases text with
    | nil => exact Or.inl rfl
    | cons c text =>
      have hc : d.special c = false := by
        simp only [List.any_cons, Bool.or_eq_true, not_or, Bool.not_eq_true] at hspecial
        exact hspecial.1
      exact Or.inr ⟨c, text, rfl, (d.special_eq_false.mp hc).2.2⟩

theorem writeField_eq_nil : writeField d text = [] ↔ text = [] := by
  rw [writeField]
  split
  · next h =>
    refine ⟨fun hquote => by simp [quote] at hquote, fun hnil => ?_⟩
    simp [hnil] at h
  · rfl

/-- The text of a row other than of an empty only field starts with no new line. -/
theorem joinFields_head (hne : fields ≠ []) (honly : fields ≠ [[]]) :
    ∃ c cs, joinFields d fields = c :: cs ∧ d.newline c = false := by
  match fields with
  | [] => exact absurd rfl hne
  | [field] =>
    refine (writeField_head field).resolve_left fun hnil => honly ?_
    rw [writeField_eq_nil.mp hnil]
  | field :: next :: fields =>
    rw [joinFields_cons]
    rcases writeField_head (d := d) field with hnil | ⟨c, cs, hwrite, hc⟩
    · exact ⟨d.delimiter, _, by rw [hnil, List.nil_append], d.newline_delimiter⟩
    · exact ⟨c, _, by rw [hwrite, List.cons_append], hc⟩

theorem scan_record (rest : Reading α) (hlength : ∀ field ∈ fields, field.length ≤ d.fieldLimit)
    (hne : fields ≠ []) (honly : fields ≠ [[]]) (hcs : cs ≠ [])
    (hend : ∀ {mode : Mode} {text saved}, mode.Closes →
      scan d ⟨mode, text, saved⟩ cs = rest.cons (saved ++ [text])) :
    scan d {} (joinFields d fields ++ cs) = rest.cons fields := by
  obtain ⟨c, text, hjoin, hc⟩ := joinFields_head (d := d) hne honly
  have hfields := scan_joinFields rest [] hlength hne hcs hend
  rw [hjoin, List.cons_append] at hfields ⊢
  rw [scan_startRecord hc, hfields, List.nil_append]

/-- A row is read back, whatever its fields and whatever follows it. -/
theorem scan_writeRow (hlength : ∀ field ∈ fields, field.length ≤ d.fieldLimit) (cs : List α) :
    scan d {} (writeRow d fields ++ cs) = (scan d {} cs).cons fields := by
  rw [writeRow, List.append_assoc, List.cons_append, List.cons_append, List.nil_append]
  split
  · next honly =>
    have hquote : scan d ⟨.startField, [], []⟩ (quote d [] ++ d.cr :: d.lf :: cs) =
        scan d ⟨.quoteInQuotedField, [], []⟩ (d.cr :: d.lf :: cs) :=
      scan_quote (Nat.zero_le _) (List.cons_ne_nil d.cr (d.lf :: cs))
    rw [honly]
    calc
      scan d {} (quote d [] ++ d.cr :: d.lf :: cs)
          = scan d ⟨.startField, [], []⟩ (quote d [] ++ d.cr :: d.lf :: cs) :=
        scan_startRecord d.newline_quotechar
      _ = scan d ⟨.quoteInQuotedField, [], []⟩ (d.cr :: d.lf :: cs) := hquote
      _ = (scan d {} cs).cons [[]] := scan_crlf (Or.inr (Or.inr rfl))
  · next honly =>
    by_cases hne : fields = []
    · subst hne
      have hopen : lineEnds d d.cr (d.lf :: cs) = false := by simp [lineEnds, d.cr_ne_lf]
      have hlf : lineEnds d d.lf cs = true := by simp [lineEnds]
      rw [joinFields, List.nil_append, scan]
      simp only [Reader.processChar, d.newline_cr, if_true, hopen, Bool.false_eq_true, if_false]
      rw [scan]
      simp [Reader.processChar, Reader.endLine, hlf]
    · exact scan_record _ hlength hne honly (List.cons_ne_nil _ _) scan_crlf

/-- Rows are read back in front of what follows them. -/
theorem scan_writeRows {rows : List (List (List α))}
    (hlength : ∀ row ∈ rows, ∀ field ∈ row, field.length ≤ d.fieldLimit) (cs : List α) :
    scan d {} (writeRows d rows ++ cs) = (scan d {} cs).append rows := by
  induction rows with
  | nil => rfl
  | cons row rows ih =>
    obtain ⟨hrow, hrows⟩ := List.forall_mem_cons.mp hlength
    rw [writeRows, List.flatMap_cons, List.append_assoc, scan_writeRow hrow]
    exact congrArg _ (ih hrows)

/-- Round trip: a text of rows is read back as the rows. -/
theorem read_writeRows {rows : List (List (List α))}
    (hlength : ∀ row ∈ rows, ∀ field ∈ row, field.length ≤ d.fieldLimit) :
    read d (writeRows d rows) = ⟨rows, true⟩ := by
  have hscan := scan_writeRows hlength (d := d) []
  rw [List.append_nil] at hscan
  rw [read_eq_scan, hscan]
  simp [Reading.append, scan, finish]

end RoundTrip

section Torn

variable {d : Dialect α}

/-- A field without special characters. -/
def Plain (d : Dialect α) (field : List α) : Prop := ∀ c ∈ field, d.special c = false

instance (field : List α) : Decidable (Plain d field) :=
  inferInstanceAs (Decidable (∀ c ∈ field, d.special c = false))

theorem writeField_plain {field : List α} (h : Plain d field) : writeField d field = field :=
  if_neg (by simpa [Plain] using h)

theorem joinFields_of_ne_nil (field : List α) {fields : List (List α)} (h : fields ≠ []) :
    joinFields d (field :: fields) = writeField d field ++ d.delimiter :: joinFields d fields := by
  cases fields with
  | nil => exact absurd rfl h
  | cons next fields => rfl

/-- What is left of a row of plain fields reads as fewer and shorter ones. -/
theorem joinFields_prefix {row : List (List α)} {text : List α} (hplain : ∀ field ∈ row, Plain d field)
    (hne : row ≠ []) (h : text <+: joinFields d row) :
    ∃ torn, torn ≠ [] ∧ joinFields d torn = text ∧
      ∀ field ∈ torn, Plain d field ∧ ∃ whole ∈ row, field.length ≤ whole.length := by
  induction row generalizing text with
  | nil => exact absurd rfl hne
  | cons field row ih =>
    obtain ⟨hfield, hrow⟩ := List.forall_mem_cons.mp hplain
    -- the tear is in the first field
    have first : text <+: field → ∃ torn, torn ≠ [] ∧ joinFields d torn = text ∧
        ∀ f ∈ torn, Plain d f ∧ ∃ whole ∈ field :: row, f.length ≤ whole.length := by
      intro htext
      have hplainText : Plain d text := fun c hc => hfield c (htext.subset hc)
      refine ⟨[text], List.cons_ne_nil _ _, writeField_plain hplainText, ?_⟩
      exact List.forall_mem_singleton.mpr ⟨hplainText, field, List.mem_cons_self, htext.length_le⟩
    by_cases hlast : row = []
    · subst hlast
      rw [joinFields, writeField_plain hfield] at h
      exact first h
    · rw [joinFields_of_ne_nil _ hlast, writeField_plain hfield] at h
      rcases List.prefix_or_prefix_of_prefix h (List.prefix_append field _) with htext | ⟨rest, rfl⟩
      · exact first htext
      · rw [List.prefix_append_right_inj] at h
        cases rest with
        | nil => exact first ((List.append_nil field).symm ▸ List.prefix_refl _)
        | cons c rest =>
          obtain ⟨rfl, hrest⟩ := List.cons_prefix_cons.mp h
          obtain ⟨torn, htorn, hjoin, hfields⟩ := ih hrow hlast hrest
          refine ⟨field :: torn, List.cons_ne_nil _ _, ?_, ?_⟩
          · rw [joinFields_of_ne_nil _ htorn, writeField_plain hfield, hjoin]
          · refine List.forall_mem_cons.mpr ⟨⟨hfield, field, List.mem_cons_self, Nat.le_refl _⟩, fun f hf => ?_⟩
            obtain ⟨hf, whole, hwhole, hlength⟩ := hfields f hf
            exact ⟨hf, whole, List.mem_cons_of_mem _ hwhole, hlength⟩

/-- Two rows on one line read as one. -/
theorem joinFields_glue (row : List (List α)) {torn : List (List α)} {next : List α}
    (htorn : ∀ field ∈ torn, Plain d field) (hne : torn ≠ []) (hnext : Plain d next) :
    joinFields d (glue torn (next :: row)) = joinFields d torn ++ joinFields d (next :: row) := by
  induction torn with
  | nil => exact absurd rfl hne
  | cons field torn ih =>
    obtain ⟨hfield, htorn⟩ := List.forall_mem_cons.mp htorn
    cases torn with
    | nil =>
      have hboth : Plain d (field ++ next) := fun c hc =>
        (List.mem_append.mp hc).elim (hfield c) (hnext c)
      cases row with
      | nil => simp only [glue, joinFields, writeField_plain hboth, writeField_plain hfield,
          writeField_plain hnext]
      | cons last row =>
        simp only [glue, joinFields, writeField_plain hboth, writeField_plain hfield,
          writeField_plain hnext, List.append_assoc]
    | cons f torn =>
      rw [glue, joinFields_of_ne_nil _ (glue_ne_nil (List.cons_ne_nil f torn)),
        ih htorn (List.cons_ne_nil _ _), joinFields_cons, List.append_assoc, List.cons_append]

variable {row fields : List (List α)} {next text : List α} {cs : List α}

/-- A row of at least two fields, behind what is left of another on its line. -/
theorem scan_glue (cs : List α) (hplain : ∀ field ∈ row, Plain d field) (hrow : row ≠ [])
    (htext : text <+: joinFields d row) (hne : text ≠ []) (hnext : Plain d next) (hfields : fields ≠ [])
    (hlength : ∀ field ∈ next :: fields, field.length ≤ d.fieldLimit)
    (hroom : ∀ field ∈ row, field.length + next.length ≤ d.fieldLimit) :
    ∃ glued, scan d {} (text ++ (writeRow d (next :: fields) ++ cs)) = (scan d {} cs).cons glued := by
  obtain ⟨torn, htorn, hjoin, hleft⟩ := joinFields_prefix hplain hrow htext
  have honly : next :: fields ≠ [[]] := fun h => hfields (List.cons.inj h).2
  have hglue := joinFields_glue fields (fun field hfield => (hleft field hfield).1) htorn hnext
  rw [hjoin] at hglue
  have hshort : ∀ field ∈ glue torn (next :: fields), field.length ≤ d.fieldLimit := by
    intro field hfield
    rcases mem_glue hfield with h | h | ⟨left, h, rfl⟩
    · obtain ⟨-, whole, hmem, hle⟩ := hleft field h
      exact Nat.le_trans hle (Nat.le_trans (Nat.le_add_right _ _) (hroom whole hmem))
    · exact hlength field h
    · obtain ⟨-, whole, hmem, hle⟩ := hleft left h
      rw [List.length_append]
      exact Nat.le_trans (Nat.add_le_add_right hle _) (hroom whole hmem)
  have honlyGlue : glue torn (next :: fields) ≠ [[]] := by
    intro h
    rw [h] at hglue
    exact hne (List.append_eq_nil_iff.mp hglue.symm).1
  refine ⟨glue torn (next :: fields), ?_⟩
  have hscan := scan_record (scan d {} cs) hshort (glue_ne_nil htorn) honlyGlue
    (List.cons_ne_nil d.cr (d.lf :: cs)) scan_crlf
  rw [hglue, List.append_assoc] at hscan
  rw [writeRow, if_neg honly, List.append_assoc]
  exact hscan

/-- A row that lost at most its last character is still a row. -/
theorem scan_ended {tail : List α} (hlength : ∀ field ∈ row, field.length ≤ d.fieldLimit)
    (hrow : row ≠ []) (honly : row ≠ [[]]) (htail : tail <+: [d.cr, d.lf]) (hne : tail ≠ [])
    (hcs : cs.head? ≠ some d.lf) :
    scan d {} (joinFields d row ++ (tail ++ cs)) = (scan d {} cs).cons row := by
  cases tail with
  | nil => exact absurd rfl hne
  | cons c tail =>
    obtain ⟨rfl, hrest⟩ := List.cons_prefix_cons.mp htail
    cases tail with
    | nil => exact scan_record _ hlength hrow honly (List.cons_ne_nil _ _) fun h => scan_cr h hcs
    | cons c tail =>
      obtain ⟨rfl, hnil⟩ := List.cons_prefix_cons.mp hrest
      rw [List.prefix_nil.mp hnil]
      exact scan_record _ hlength hrow honly (List.cons_ne_nil _ _) scan_crlf

theorem writeRow_head (hfields : fields ≠ []) : (writeRow d (next :: fields) ++ cs).head? ≠ some d.lf := by
  have honly : next :: fields ≠ [[]] := fun h => hfields (List.cons.inj h).2
  obtain ⟨c, text, hjoin, hc⟩ := joinFields_head (d := d) (List.cons_ne_nil next fields) honly
  rw [writeRow, if_neg honly, hjoin]
  rintro hlf
  rw [Option.some.inj hlf, d.newline_lf] at hc
  cases hc

theorem scan_lf {mode : Mode} {field : List α} {saved : List (List α)} (h : mode.Closes) :
    scan d ⟨mode, field, saved⟩ [d.lf] = ⟨[saved ++ [field]], true⟩ := by
  have hends : lineEnds d d.lf [] = true := by simp [lineEnds]
  obtain ⟨hquotechar, hdelimiter⟩ := d.ne_of_newline d.newline_lf
  rw [scan]
  rcases h with rfl | rfl | rfl <;>
    simp [Reader.processChar, Reader.startField, Reader.saveField, Reader.endLine, hends, hquotechar,
      hdelimiter, scan, finish, Reading.cons]

/-- A text without quotes and new lines is a record as it stands. -/
theorem scan_unended {mode : Mode} {field : List α} {saved : List (List α)}
    (hmode : mode = .startField ∨ mode = .inField)
    (htext : ∀ c ∈ text, c ≠ d.quotechar ∧ d.newline c = false) (hne : text ≠ []) :
    scan d ⟨mode, field, saved⟩ text = scan d ⟨mode, field, saved⟩ (text ++ [d.lf]) := by
  induction text generalizing mode field saved with
  | nil => exact absurd rfl hne
  | cons c text ih =>
    obtain ⟨⟨hquotechar, hnewline⟩, hrest⟩ := List.forall_mem_cons.mp htext
    -- the character leaves the reader in a field again, or it raises
    have hstep : Reader.processChar d ⟨mode, field, saved⟩ c = none ∨ ∃ mode' field' saved',
        (mode' = .startField ∨ mode' = .inField) ∧
          Reader.processChar d ⟨mode, field, saved⟩ c = some ⟨mode', field', saved'⟩ := by
      rcases hmode with rfl | rfl <;>
      · simp only [Reader.processChar, Reader.startField, hnewline, hquotechar, Reader.addChar,
          Reader.saveField, Bool.false_eq_true, if_false]
        by_cases hc : c = d.delimiter
        · exact Or.inr ⟨_, _, _, Or.inl rfl, if_pos hc⟩
        · rw [if_neg hc]
          split
          · exact Or.inr ⟨_, _, _, Or.inr rfl, rfl⟩
          · exact Or.inl rfl
    rw [List.cons_append, scan_cons hnewline (List.append_ne_nil_of_right_ne_nil _ (List.cons_ne_nil _ _))]
    rcases hstep with hnone | ⟨mode', field', saved', hmode', hsome⟩
    · rw [scan, hnone]
    · cases text with
      | nil =>
        have hends : lineEnds d c [] = true := by simp [lineEnds]
        have hcloses : mode'.Closes := hmode'.imp id Or.inl
        simp only [scan, hsome, hends, if_true, List.nil_append, scan_lf hcloses]
        rcases hmode' with rfl | rfl <;> simp [Reader.saveField, Reader.endLine, finish, Reading.cons]
      | cons c' text =>
        rw [scan_cons hnewline (List.cons_ne_nil _ _), hsome]
        exact ih hmode' hrest (List.cons_ne_nil _ _)

theorem joinFields_plain (hplain : ∀ field ∈ row, Plain d field) :
    ∀ c ∈ joinFields d row, c ≠ d.quotechar ∧ d.newline c = false := by
  induction row with
  | nil => exact fun c hc => absurd hc List.not_mem_nil
  | cons field row ih =>
    obtain ⟨hfield, hrow⟩ := List.forall_mem_cons.mp hplain
    have hchars : ∀ c ∈ field, c ≠ d.quotechar ∧ d.newline c = false := fun c hc =>
      (d.special_eq_false.mp (hfield c hc)).2
    by_cases hlast : row = []
    · subst hlast
      rw [joinFields, writeField_plain hfield]
      exact hchars
    · rw [joinFields_of_ne_nil _ hlast, writeField_plain hfield]
      intro c hc
      rcases List.mem_append.mp hc with hc | hc
      · exact hchars c hc
      · rcases List.mem_cons.mp hc with rfl | hc
        · exact ⟨d.delimiter_ne_quotechar, d.newline_delimiter⟩
        · exact ih hrow c hc

/-- A row of plain fields torn anywhere, with nothing behind it, reads as at most one row. -/
theorem read_torn_end {rows : List (List (List α))}
    (hrows : ∀ r ∈ rows, ∀ field ∈ r, field.length ≤ d.fieldLimit)
    (hplain : ∀ field ∈ row, Plain d field) (hrow : row ≠ []) (honly : row ≠ [[]])
    (hlength : ∀ field ∈ row, field.length ≤ d.fieldLimit) (htext : text <+: writeRow d row) :
    ∃ between, between.length ≤ 1 ∧ read d (writeRows d rows ++ text) = ⟨rows ++ between, true⟩ := by
  suffices h : ∃ between, between.length ≤ 1 ∧ scan d {} text = ⟨between, true⟩ by
    obtain ⟨between, hbetween, hscan⟩ := h
    exact ⟨between, hbetween, by rw [read_eq_scan, scan_writeRows hrows, hscan]; rfl⟩
  have hline : ∀ text, text <+: joinFields d row →
      ∃ between : List (List (List α)), between.length ≤ 1 ∧ scan d {} text = ⟨between, true⟩ := by
    intro text htear
    by_cases hnil : text = []
    · exact ⟨[], Nat.zero_le _, by rw [hnil]; simp [scan, finish]⟩
    obtain ⟨torn, htorn, hjoin, hleft⟩ := joinFields_prefix hplain hrow htear
    have hshort : ∀ field ∈ torn, field.length ≤ d.fieldLimit := fun field hfield => by
      obtain ⟨-, whole, hwhole, hle⟩ := hleft field hfield
      exact Nat.le_trans hle (hlength whole hwhole)
    have hchars := joinFields_plain fun field hfield => (hleft field hfield).1
    rw [hjoin] at hchars
    refine ⟨[torn], Nat.le_refl _, ?_⟩
    have hfields := scan_joinFields ⟨[], true⟩ [] hshort htorn
      (List.cons_ne_nil d.lf []) scan_lf
    rw [hjoin, ← scan_unended (Or.inl rfl) hchars hnil] at hfields
    cases text with
    | nil => exact absurd rfl hnil
    | cons c text =>
      rw [scan_startRecord (hchars c List.mem_cons_self).2, hfields]
      rfl
  rw [writeRow, if_neg honly] at htext
  rcases List.prefix_or_prefix_of_prefix htext (List.prefix_append _ _) with htear | ⟨tail, rfl⟩
  · exact hline text htear
  · rw [List.prefix_append_right_inj] at htext
    by_cases htail : tail = []
    · rw [htail, List.append_nil]
      exact hline _ (List.prefix_refl _)
    · refine ⟨[row], Nat.le_refl _, ?_⟩
      have hscan : scan d {} (joinFields d row ++ (tail ++ [])) = (scan d {} []).cons row :=
        scan_ended hlength hrow honly htext htail (by simp)
      rw [List.append_nil] at hscan
      rw [hscan]
      simp [scan, finish, Reading.cons]

/-- A row of plain fields torn anywhere costs at most one of the rows that follow, and none before. -/
theorem read_torn {rows later : List (List (List α))}
    (hrows : ∀ r ∈ rows, ∀ field ∈ r, field.length ≤ d.fieldLimit)
    (hplain : ∀ field ∈ row, Plain d field) (hrow : row ≠ []) (honly : row ≠ [[]])
    (htext : text <+: writeRow d row) (hnext : Plain d next) (hfields : fields ≠ [])
    (hlater : ∀ r ∈ (next :: fields) :: later, ∀ field ∈ r, field.length ≤ d.fieldLimit)
    (hroom : ∀ field ∈ row, field.length + next.length ≤ d.fieldLimit) :
    ∃ between, (between = [row, next :: fields] ∨ between.length = 1) ∧
      read d (writeRows d rows ++ (text ++ writeRows d ((next :: fields) :: later))) =
        ⟨rows ++ (between ++ later), true⟩ := by
  obtain ⟨hfirst, hrest⟩ := List.forall_mem_cons.mp hlater
  have hend : scan d {} (writeRows d later) = ⟨later, true⟩ := by
    rw [← read_eq_scan, read_writeRows hrest]
  have hboth : scan d {} (writeRow d (next :: fields) ++ writeRows d later) =
      ⟨(next :: fields) :: later, true⟩ := by
    rw [scan_writeRow hfirst, hend]
    rfl
  -- it is enough to know what the reader makes of the text from the tear on
  suffices h : ∃ between, (between = [row, next :: fields] ∨ between.length = 1) ∧
      scan d {} (text ++ (writeRow d (next :: fields) ++ writeRows d later)) = ⟨between ++ later, true⟩ by
    obtain ⟨between, hbetween, hscan⟩ := h
    refine ⟨between, hbetween, ?_⟩
    rw [read_eq_scan, scan_writeRows hrows, writeRows, List.flatMap_cons]
    exact congrArg (Reading.append rows) hscan
  by_cases hnil : text = []
  · exact ⟨[next :: fields], Or.inr rfl, by rw [hnil]; exact hboth⟩
  rw [writeRow, if_neg honly] at htext
  rcases List.prefix_or_prefix_of_prefix htext (List.prefix_append _ _) with htear | ⟨tail, rfl⟩
  · obtain ⟨glued, hglued⟩ := scan_glue (writeRows d later) hplain hrow htear hnil hnext hfields
      hfirst hroom
    exact ⟨[glued], Or.inr rfl, by rw [hglued, hend]; rfl⟩
  · rw [List.prefix_append_right_inj] at htext
    by_cases htail : tail = []
    · subst htail
      rw [List.append_nil] at hnil ⊢
      obtain ⟨glued, hglued⟩ := scan_glue (writeRows d later) hplain hrow (List.prefix_refl _) hnil
        hnext hfields hfirst hroom
      exact ⟨[glued], Or.inr rfl, by rw [hglued, hend]; rfl⟩
    · have hwhole : ∀ field ∈ row, field.length ≤ d.fieldLimit := fun field hfield =>
        Nat.le_trans (Nat.le_add_right _ _) (hroom field hfield)
      refine ⟨[row, next :: fields], Or.inl rfl, ?_⟩
      rw [List.append_assoc, scan_ended hwhole hrow honly htext htail (writeRow_head hfields), hboth]
      rfl

end Torn

section Lines

variable {d : Dialect α} {text : List α} {row : List (List α)}

theorem feed_plain (field : List α) (saved : List (List α)) {mode : Mode}
    (hmode : mode = .startField ∨ mode = .inField) (hplain : Plain d text)
    (hlength : (field ++ text).length ≤ d.fieldLimit) :
    ∃ mode' : Mode, (mode' = .startField ∨ mode' = .inField) ∧
      ∀ cs, Reader.feed d ⟨mode, field, saved⟩ (text ++ cs) =
        Reader.feed d ⟨mode', field ++ text, saved⟩ cs := by
  induction text generalizing mode field with
  | nil => exact ⟨mode, hmode, fun cs => by rw [List.nil_append, List.append_nil]⟩
  | cons c text ih =>
    obtain ⟨hc, htext⟩ := List.forall_mem_cons.mp hplain
    obtain ⟨hdelimiter, hquotechar, hnewline⟩ := d.special_eq_false.mp hc
    have hshort : field.length < d.fieldLimit := by
      simp only [List.length_append, List.length_cons] at hlength
      omega
    have hstep : Reader.processChar d ⟨mode, field, saved⟩ c = some ⟨.inField, field ++ [c], saved⟩ := by
      rcases hmode with rfl | rfl <;>
        simp [Reader.processChar, Reader.startField, Reader.addChar, hdelimiter, hquotechar, hnewline, hshort]
    obtain ⟨mode', hmode', hfeed⟩ := ih (field ++ [c]) (Or.inr rfl) htext (by simpa using hlength)
    refine ⟨mode', hmode', fun cs => ?_⟩
    rw [List.cons_append, Reader.feed, hstep, Option.bind_some, hfeed, List.append_assoc, List.singleton_append]

/-- The fields of a line of plain ones are read back. -/
theorem feed_joinFields (saved : List (List α)) (hplain : ∀ field ∈ row, Plain d field)
    (hlength : ∀ field ∈ row, field.length ≤ d.fieldLimit) (hrow : row ≠ []) :
    ∃ r : Reader α, Reader.feed d ⟨.startField, [], saved⟩ (joinFields d row) = some r ∧
      r.endLine = ⟨.startRecord, [], saved ++ row⟩ := by
  induction row generalizing saved with
  | nil => exact absurd rfl hrow
  | cons field row ih =>
    obtain ⟨hfield, hrest⟩ := List.forall_mem_cons.mp hplain
    obtain ⟨hshort, hshorts⟩ := List.forall_mem_cons.mp hlength
    obtain ⟨mode, hmode, hfeed⟩ :=
      feed_plain [] saved (Or.inl rfl) hfield (by simpa using hshort)
    by_cases hlast : row = []
    · subst hlast
      refine ⟨⟨mode, field, saved⟩, ?_, ?_⟩
      · rw [joinFields, writeField_plain hfield, ← List.append_nil field, hfeed, List.append_nil, Reader.feed,
          List.nil_append]
      · rcases hmode with rfl | rfl <;> rfl
    · obtain ⟨r, hr, hend⟩ := ih (saved ++ [field]) hrest hshorts hlast
      have hdelimiter : Reader.processChar d ⟨mode, [] ++ field, saved⟩ d.delimiter =
          some ⟨.startField, [], saved ++ [field]⟩ := by
        rcases hmode with rfl | rfl <;>
          simp [Reader.processChar, Reader.startField, Reader.saveField, d.delimiter_ne_quotechar]
      refine ⟨r, ?_, by rw [hend, List.append_assoc, List.singleton_append]⟩
      rw [joinFields_of_ne_nil _ hlast, writeField_plain hfield, hfeed, Reader.feed, hdelimiter,
        Option.bind_some, hr]

/-- Lines of plain fields, without their ends, are read back as the rows they were made of. -/
theorem readLines_joinFields {rows : List (List (List α))}
    (hplain : ∀ row ∈ rows, ∀ field ∈ row, Plain d field)
    (hlength : ∀ row ∈ rows, ∀ field ∈ row, field.length ≤ d.fieldLimit)
    (hrows : ∀ row ∈ rows, row ≠ [] ∧ row ≠ [[]]) :
    readLines d {} (rows.map (joinFields d)) = ⟨rows, true⟩ := by
  induction rows with
  | nil => rfl
  | cons row rows ih =>
    obtain ⟨hrow, hrest⟩ := List.forall_mem_cons.mp hplain
    obtain ⟨hshort, hshorts⟩ := List.forall_mem_cons.mp hlength
    obtain ⟨⟨hne, honly⟩, hnes⟩ := List.forall_mem_cons.mp hrows
    obtain ⟨r, hfeed, hend⟩ := feed_joinFields [] hrow hshort hne
    have hstart : Reader.feed d {} (joinFields d row) = some r := by
      obtain ⟨c, cs, hjoin, hc⟩ := joinFields_head (d := d) hne honly
      rw [hjoin] at hfeed ⊢
      rw [← hfeed, Reader.feed, Reader.feed]
      simp [Reader.processChar, hc, Reader.startField, Reader.addChar, Reader.saveField]
    rw [List.map_cons, readLines, hstart]
    simp only [hend, if_true, List.nil_append, ih hrest hshorts hnes, Reading.cons]

theorem joinFields_intercalate (hplain : ∀ field ∈ row, Plain d field) :
    joinFields d row = [d.delimiter].intercalate row := by
  induction row with
  | nil => rfl
  | cons field row ih =>
    obtain ⟨hfield, hrow⟩ := List.forall_mem_cons.mp hplain
    cases row with
    | nil => rw [joinFields, writeField_plain hfield, List.intercalate_singleton]
    | cons next row =>
      rw [joinFields_cons, writeField_plain hfield, ih hrow, List.intercalate_cons_cons, List.append_assoc,
        List.singleton_append]

end Lines

end GridWitness.Library.Csv
