import Mathlib.Data.List.Infix
import GridWitness.Library.Dict
import GridWitness.Server.SurveyUpload
import GridWitness.Survey.Worker

namespace GridWitness.Survey

open Library Server

/-- The libraries the parsers lean on: Python's text, `float` and `csv`, and the tolerant timestamps
of pandas. A delimiter that cannot be sniffed, a text that is no number and a cell that is no timestamp
are none. -/
structure ParserHost where
  rt : Runtime
  float : String → Option PyFloat
  toDatetime : Option String → Option DateTime
  readText : Content → String
  splitlines : String → List String
  sniff : String → Option String
  reader : String → List String → List (List String)

def tsTokens : List String :=
  ["timestamp", "date/time", "datetime", "date time", "time", "date", "utc"]

def freqTokens : List String := ["frequency", "freq", "hz"]

def voltTokens : List String :=
  ["voltage", "vrms", "urms", "v rms", "u rms", "volt", "v_rms", "u_rms",
   "v1", "v2", "v3", "u1", "u2", "u3", "van", "vbn", "vcn", "uan", "ubn", "ucn"]

def phaseHints : List (List String × String) :=
  [(["l1", "v1", "u1", "ph1", "phase 1", "phase1", "a-n", "van"], "L1"),
   (["l2", "v2", "u2", "ph2", "phase 2", "phase2", "b-n", "vbn"], "L2"),
   (["l3", "v3", "u3", "ph3", "phase 3", "phase3", "c-n", "vcn"], "L3")]

/-- `part in text`. -/
def contains (text part : String) : Bool := decide (part.toList <:+: text.toList)

/-- `%Y-%m-%dT%H:%M:%S.` with the milliseconds and a `Z`. -/
def isoZ (ts : DateTime) : String :=
  ts.date ++ "T" ++ ts.hourName ++ ":" ++ zeroPad 2 ts.minute ++ ":" ++ zeroPad 2 ts.second ++ "." ++
    zeroPad 3 (ts.microsecond / 1000) ++ "Z"

def inFreqBand (v : Option PyFloat) : Option PyFloat := v.filter (PyFloat.between 40 70)

def inVoltBand (v : Option PyFloat) : Option PyFloat := v.filter (PyFloat.between 40 520)

/-- A record of the CSV reader; a cell a short line has no text for is none. -/
abbrev Record := Dict String (Option String)

/-- The record of a line. What stands beyond the header is kept under no name, and nothing reads it. -/
def dictRow (fieldnames : List String) (row : List String) : Record :=
  fieldnames.zipIdx.foldl (fun rec (name, i) => rec.set name row[i]?) []

/-- The records of the lines after the header; blank lines are skipped. -/
def dictRows (fieldnames : List String) (rows : List (List String)) : List Record :=
  (rows.filter (· ≠ [])).map (dictRow fieldnames)

/-- The timestamp column, the voltage columns with their phases, and the frequency column. -/
structure Columns where
  tsCol : Option String
  voltCols : List (String × String)
  freqCol : Option String

section Parse

variable (host : ParserHost)

def toIsoZ (value : Option String) : Option String := (host.toDatetime value).map isoZ

/-- A numeric cell in US or European formatting; a lone comma is a decimal point. -/
def num (value : Option String) : Option PyFloat :=
  let s := (host.rt.strip (value.getD "None")).toList.filter (· ≠ ' ')
  if s = [] then none
  else
    let s :=
      if '.' ∈ s ∧ ',' ∈ s then s.filter (· ≠ ',')
      else if s.count ',' = 1 ∧ '.' ∉ s then s.map fun c => if c = ',' then '.' else c
      else s.filter (· ≠ ',')
    host.float (String.ofList s)

def matchTokens (header : String) (tokens : List String) : Bool :=
  tokens.any (contains (host.rt.lower (host.rt.strip header)) ·)

def phaseFor (header : String) : String :=
  match phaseHints.find? fun (hints, _) => matchTokens host header hints with
  | some (_, label) => label
  | none => "1p"

def classifyColumns (headers : List String) : Columns :=
  let tsCol := headers.find? (matchTokens host · tsTokens)
  let voltCols := headers.filter fun h =>
    matchTokens host h voltTokens && !matchTokens host h freqTokens && some h ≠ tsCol
  { tsCol
    voltCols := voltCols.map fun h => (h, phaseFor host h)
    freqCol := headers.find? (matchTokens host · freqTokens) }

/-- A cell by the name of its column. -/
def cell (rec : Record) (column : String) : Option String := (rec.get column).getD (some "")

/-- The rows of the voltage columns; the first one carries the frequency. -/
def voltRows (iso : String) (rec : Record) : Option PyFloat → List (String × String) → List ParsedRow
  | _, [] => []
  | freq, (vcol, phase) :: cols =>
    let v := inVoltBand (num host (cell rec vcol))
    if v = none ∧ freq = none then voltRows iso rec none cols
    else ⟨iso, phase, v, freq⟩ :: voltRows iso rec none cols

/-- The rows of one record; a record without a timestamp is dropped. -/
def recordRows (tsCol : String) (columns : Columns) (rec : Record) : List ParsedRow :=
  match toIsoZ host (cell rec tsCol) with
  | none => []
  | some iso =>
    let freq := columns.freqCol.bind fun col => inFreqBand (num host (cell rec col))
    if columns.voltCols = [] then (freq.map fun f => ⟨iso, "1p", none, some f⟩).toList
    else voltRows host iso rec freq columns.voltCols

def rowsFromRecords (records : List Record) (headers : List String) : ParseResult :=
  let columns := classifyColumns host headers
  let unusable : ParseResult :=
    ⟨[], 0, 0, 0, some "no usable timestamp/voltage/frequency columns", false⟩
  match columns.tsCol with
  | none => unusable
  | some tsCol =>
    if columns.voltCols = [] ∧ columns.freqCol = none then unusable
    else
      let out := records.map (recordRows host tsCol columns)
      { rows := out.flatten
        read := records.length
        kept := out.countP (· ≠ [])
        dropped := out.countP (· = []) }

/-- `k.strip().lower()`. -/
def fieldName (k : String) : String := host.rt.lower (host.rt.strip k)

def longHeader : List String := ["timestamp", "phase", "channel", "value"]

/-- A record of the long format, by its normalised names. -/
def longRecord (rec : Record) : Record :=
  rec.foldl (fun r (k, v) => r.set (fieldName host k) v) []

/-- `x or default`, on a cell that may be missing. -/
def orElse (x : Option String) (default : String) : String :=
  match x with
  | none => default
  | some text => if text = "" then default else text

def longPhase (r : Record) : String :=
  let phase := host.rt.strip (orElse ((r.get "phase").getD none) "1p")
  if phase = "" then "1p" else phase

def longChannel (r : Record) : String :=
  host.rt.lower (host.rt.strip (orElse ((r.get "channel").getD none) ""))

/-- What a record does to the row of its timestamp and phase. -/
def longUpdate (channel : String) (val : PyFloat) (row : ParsedRow) : ParsedRow :=
  if contains channel "freq" ∧ val.between 40 70 then { row with frequencyHz := some val }
  else if contains channel "volt" ∧ val.between 40 520 then { row with voltageV := some val }
  else row

/-- One round of the loop over the records of the long format. -/
def longStep (grouped : Dict (String × String) ParsedRow) (rec : Record) :
    Dict (String × String) ParsedRow :=
  let r := longRecord host rec
  match toIsoZ host (cell r "timestamp"), num host (cell r "value") with
  | some iso, some val =>
    let phase := longPhase host r
    grouped.alter (iso, phase) fun row =>
      longUpdate (longChannel host r) val (row.getD ⟨iso, phase, none, none⟩)
  | _, _ => grouped

def rowsFromLong (records : List Record) : ParseResult :=
  let grouped := records.foldl (longStep host) []
  let rows := (grouped.map (·.2)).filter fun r => r.voltageV.isSome || r.frequencyHz.isSome
  ⟨rows, records.length, rows.length, records.length - rows.length, none, false⟩

def isLong (fieldnames : List String) : Bool :=
  fieldnames.all (fieldName host · ∈ longHeader) &&
    longHeader.all (· ∈ fieldnames.map (fieldName host))

def parseCsv (content : Content) : ParseResult :=
  let lines := host.splitlines (host.readText content)
  if lines = [] then ⟨[], 0, 0, 0, some "empty file", false⟩
  else
    let delim := (host.sniff ("\n".intercalate (lines.take 20))).getD ","
    match host.reader delim lines with
    | [] => ⟨[], 0, 0, 0, some "no header row", false⟩
    | [] :: _ => ⟨[], 0, 0, 0, some "no header row", false⟩
    | fieldnames :: rows =>
      let records := dictRows fieldnames rows
      if isLong host fieldnames then rowsFromLong host records
      else rowsFromRecords host records fieldnames

/-- How a run of the PQDIF converter ends. -/
inductive Conversion
  | notFound
  | failed (stderr : String)
  | timedOut
  | converted (stdout : String)

/-- The converter of a host, by its path. -/
structure Converter where
  path : String
  run : Content → Conversion

def parsePqdif (converter : Option Converter) (content : Content) : ParseResult :=
  match converter with
  | none =>
    ⟨[], 0, 0, 0, some "pqdif converter not configured (set GW_PQDIF2CSV)", true⟩
  | some converter =>
    match converter.run content with
    | .notFound => ⟨[], 0, 0, 0, some ("pqdif converter not found: " ++ converter.path), true⟩
    | .failed stderr =>
      let reason := String.ofList ((host.rt.strip stderr).toList.take 200)
      ⟨[], 0, 0, 0, some ("pqdif convert failed: " ++ reason), false⟩
    | .timedOut => ⟨[], 0, 0, 0, some "pqdif convert timed out", false⟩
    | .converted stdout =>
      match host.reader "," (host.splitlines stdout) with
      | [] => rowsFromLong host []
      | fieldnames :: rows => rowsFromLong host (dictRows fieldnames rows)

/-- `parse_file`; with a CSV reader that raises nothing it always returns. -/
def ParserHost.parseFile (converter : Option Converter) (name : String) (content : Content) : ParseResult :=
  if host.rt.lower (pathSuffix name) ∈ [".pqd", ".pqdif"] then parsePqdif host converter content
  else parseCsv host content

/-- The parser of a drain on a host. -/
def hostParser (converter : Option Converter) : Parser := fun name content =>
  some (host.parseFile converter name content)

end Parse

/-- What the probing of a column relies on: these four cells are read as Python and pandas read them. -/
structure ParserHost.Reads (host : ParserHost) : Prop where
  strip_blank : host.rt.strip "" = ""
  strip_number : host.rt.strip "50" = "50"
  float_number : host.float "50" = some (.fin 50)
  toDatetime_instant : (host.toDatetime (some "2026-01-01T00:00:00Z")).isSome

/-- A host for concrete runs: ASCII text, whole numbers, commas without quotes and one timestamp. -/
def ParserHost.ascii : ParserHost where
  rt := { Runtime.ascii with
    parseIso := fun s =>
      if s = "2026-01-01T00:00:00.000Z" then some ⟨2026, 1, 1, 0, 0, 0, 0⟩ else Runtime.isoSeconds s }
  float s := if s = "" then none else (Runtime.digits s.toList).map fun n => .fin n
  toDatetime value :=
    if value = some "2026-01-01T00:00:00Z" then some ⟨2026, 1, 1, 0, 0, 0, 0⟩ else none
  readText
    | .raw bytes => String.ofList (bytes.map fun b => Char.ofNat b.toNat)
    | _ => ""
  splitlines s := (s.toList.splitOn '\n').map String.ofList
  sniff _ := some ","
  reader _ lines := lines.map fun line => (line.toList.splitOn ',').map String.ofList

end GridWitness.Survey
