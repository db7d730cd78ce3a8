import GridWitness.Library.Text
import GridWitness.Server.StagedText
import GridWitness.Survey.Parsers

namespace GridWitness.Survey

open Library Server

/-- The dialect of a reader at a delimiter other than the default one. -/
def delimited (delimiter : Char) : Option (Csv.Dialect Char) :=
  if h : [delimiter, '"', '\r', '\n'].Nodup then some { excel with delimiter, distinct := h } else none

/-- `csv.DictReader` over the lines of a text, by their number or the name of the delimiter. -/
def csvReader (delim : String) (lines : List String) : List (List String) :=
  match delim.toList with
  | [delimiter] =>
    match delimited delimiter with
    | some d => (Csv.readLines d {} (lines.map String.toList)).rows.map (·.map String.ofList)
    | none => []
  | _ => []

/-- A host with the line splitting and the CSV reader of CPython. -/
def ParserHost.withCsv (host : ParserHost) : ParserHost :=
  { host with
    splitlines := fun s => (Text.splitlines s.toList).map String.ofList
    reader := csvReader }

/-- The phase of a PQDIF channel, as far as it has a label of its own. -/
inductive PqdifPhase
  | an | bn | cn | residual | other

inductive QuantityMeasured
  | voltage | other
  deriving DecidableEq

inductive SeriesValueType
  | time | val | other
  deriving DecidableEq

inductive QuantityCharacteristic
  | frequency | rms | instantaneous | other
  deriving DecidableEq

/-- The .NET libraries the converter leans on: its dates, its numbers and the PQDIF parser. An exception
is its message. -/
structure Clr where
  Stamp : Type
  Span : Type
  Object : Type
  add : Stamp → Span → Except String Stamp
  addSeconds : Stamp → ℚ → Except String Stamp
  toUniversalTime : Stamp → DateTime
  toDouble : Object → Option PyFloat
  roundTrip : ℚ → String

namespace Clr

variable (clr : Clr)

/-- A value of a series: a date, a duration, or what may convert to a number. -/
inductive Value
  | stamp (dt : clr.Stamp)
  | span (ts : clr.Span)
  | object (o : clr.Object)

structure SeriesInstance where
  valueType : SeriesValueType
  characteristic : QuantityCharacteristic
  originalValues : List clr.Value

structure ChannelInstance where
  phase : PqdifPhase
  quantityMeasured : QuantityMeasured
  seriesInstances : List clr.SeriesInstance

structure ObservationRecord where
  startTime : clr.Stamp
  channelInstances : List clr.ChannelInstance

/-- The records of a file, as the parser hands them out one after another. -/
abbrev PqdifFile := List (Except String clr.ObservationRecord)

variable {clr}

/-- Dates and durations convert to no number; neither do infinities. -/
def Value.tryToDouble : clr.Value → Option ℚ
  | .object o =>
    match clr.toDouble o with
    | some (.fin q) => some q
    | _ => none
  | _ => none

end Clr

def PqdifPhase.label : PqdifPhase → String
  | .an | .residual => "L1"
  | .bn => "L2"
  | .cn => "L3"
  | .other => "1p"

/-- A line the converter writes, before it is printed. -/
structure Sample where
  time : DateTime
  phase : String
  channel : String
  value : ℚ

section Convert

variable (clr : Clr)

def resolveTimes (start : clr.Stamp) : List clr.Value → Except String (List clr.Stamp)
  | [] => .ok []
  | value :: raw => do
    let time ←
      match value with
      | .stamp dt => .ok dt
      | .span ts => clr.add start ts
      | .object _ =>
        match value.tryToDouble with
        | some secs => clr.addSeconds start secs
        | none => .ok start
    let times ← resolveTimes start raw
    .ok (time :: times)

/-- `Emit`: values beyond the times, and times beyond the values, are left out. -/
def emit (times : List clr.Stamp) (values : List clr.Value) (phase channel : String) : List Sample :=
  (times.zip values).filterMap fun (time, value) =>
    value.tryToDouble.map fun v => ⟨clr.toUniversalTime time, phase, channel, v⟩

/-- The name a series of values is emitted under; everything else is dropped at the source. -/
def channelName (isVoltage : Bool) (series : clr.SeriesInstance) : Option String :=
  if series.valueType ≠ .val then none
  else if series.characteristic = .frequency then some "frequency"
  else if isVoltage ∧ (series.characteristic = .rms ∨ series.characteristic = .instantaneous) then
    some "voltage"
  else none

/-- One series of a channel, next to the times of the channel. -/
def emitSeries (times : List clr.Stamp) (channel : clr.ChannelInstance) (series : clr.SeriesInstance) :
    List Sample :=
  match channelName clr (channel.quantityMeasured = .voltage) series with
  | none => []
  | some name => emit clr times series.originalValues channel.phase.label name

/-- One channel of a record; without a series of times it is skipped. -/
def convertChannel (start : clr.Stamp) (channel : clr.ChannelInstance) : Except String (List Sample) :=
  match channel.seriesInstances.find? (·.valueType = .time) with
  | none => .ok []
  | some timeSeries => do
    let times ← resolveTimes clr start timeSeries.originalValues
    .ok (channel.seriesInstances.flatMap (emitSeries clr times channel))

def convertRecord (start : clr.Stamp) : List clr.ChannelInstance → Except String (List Sample)
  | [] => .ok []
  | channel :: channels => do
    let samples ← convertChannel clr start channel
    let rest ← convertRecord start channels
    .ok (samples ++ rest)

/-- `Convert`: the samples of a file, in its order. -/
def convert : clr.PqdifFile → Except String (List Sample)
  | [] => .ok []
  | record :: file => do
    let record ← record
    let samples ← convertRecord clr record.startTime record.channelInstances
    let rest ← convert file
    .ok (samples ++ rest)

/-- The fields of a sample on its line. -/
def Sample.fields (x : Sample) : List (List Char) :=
  [(isoZ x.time).toList, x.phase.toList, x.channel.toList, (clr.roundTrip x.value).toList]

/-- The header, and a line for each sample. -/
def longRows (samples : List Sample) : List (List (List Char)) :=
  longHeader.map String.toList :: samples.map (Sample.fields clr)

/-- What the converter writes for some samples, with the line ends of its platform. -/
def longText (ending : List Char) (samples : List Sample) : List Char :=
  (longRows clr samples).flatMap fun fields => [','].intercalate fields ++ ending

/-- `pqdif2csv`, at some path, as the worker runs it on an input file. An exception leaves its message and
an exit code of 1; text mode hands the output over with `\n` at the ends of the lines. -/
def pqdif2csv (path inputPath : String) (load : Content → clr.PqdifFile) : Converter where
  path
  run content :=
    match convert clr (load content) with
    | .error message =>
      .failed ("pqdif2csv: failed to parse " ++ inputPath ++ ": " ++ message ++ "\n")
    | .ok samples => .converted (String.ofList (longText clr ['\n'] samples))

end Convert

end GridWitness.Survey
