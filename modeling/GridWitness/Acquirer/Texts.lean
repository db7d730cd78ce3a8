import GridWitness.Acquirer.Run
import GridWitness.Server.StagedLines
import GridWitness.Server.StagedText

namespace GridWitness.Acquirer

open Library Server

/-- A record as `csv.DictReader` hands it out, by the names of the first one. -/
def textRow (names fields : List (List Char)) : Row :=
  (names.map String.ofList).zip (fields.map fun field => .text (String.ofList field))

/-- The rows of a file; none when the reader raises. Blank lines are skipped. -/
def textRows (text : List Char) : Option (List Row) :=
  let records := Csv.read excel text
  if records.complete then
    match records.rows with
    | [] => some []
    | names :: rows => some ((rows.filter (· ≠ [])).map (textRow names))
  else none

def textFiles (texts : StagedTexts) (kind : Kind) : List StagingPath :=
  (texts.keys.filter (·.kind = kind)).insertionSort pathLe

/-- `read_staging` over the files on disk. -/
def readTexts (texts : StagedTexts) (kind : Kind) (since : Option String) : Option (List Row) :=
  (((textFiles texts kind).filter (!covered since ·)).mapM fun p => textRows (texts.text p)).map
    List.flatten

def latestText (texts : StagedTexts) (kind : Kind) : Option String :=
  (textFiles texts kind).foldl newer none

section Run

variable (host : Host) (readable : Partition → Bool) (cutoff : Option Instant) (texts : StagedTexts)

/-- The loop of `run`; an exception leaves what has landed and keeps the saved cursor. -/
def coverTexts (saved : State) : List Kind → Landing × Nat → Landing × Option Nat
  | [], (a, total) => (a, some total)
  | kind :: kinds, (a, total) =>
    match readTexts texts kind (a.state kind) with
    | none => ({ a with state := saved }, none)
    | some rows =>
      let df := clampHorizon cutoff (frame host kind rows)
      let (lake, wrote) := writeDataset host kind readable a.lake df
      coverTexts saved kinds
        ({ lake, state := a.state.set kind (latestText texts kind) }, total + wrote)

/-- `run` over the files on disk: what it lands, and the rows it reports unless it raises. -/
def runTexts (a : Landing) : Landing × Option Nat :=
  coverTexts host readable cutoff texts a.state [.electrical, .weather] (a, 0)

end Run

/-- What happens to staging and the lake: a call of a writer, or a run of the acquirer. -/
inductive StagingEvent
  | write (kind : Kind) (rows : List Row)
  | run (readable : Partition → Bool) (cutoff : Option Instant)

/-- One writer and the acquirer over files of lines. -/
structure LineSystem where
  writer : StagingWriter := ⟨∅, StagingWriter.freshDeduper⟩
  landing : Landing := {}

def LineSystem.step (rt : Runtime) (host : Host) (x : LineSystem) : StagingEvent → LineSystem
  | .write kind rows => { x with writer := (StagingWriter.writeKind rt kind none x.writer rows).1 }
  | .run readable cutoff =>
    { x with landing := (Acquirer.run host readable cutoff x.writer.tree x.landing).1 }

/-- The same over files of characters, and whether a run has raised. -/
structure TextSystem where
  writer : TextWriter := ⟨∅, StagingWriter.freshDeduper⟩
  landing : Landing := {}
  raised : Bool := false

def TextSystem.step (rt : Runtime) (host : Host) (x : TextSystem) : StagingEvent → TextSystem
  | .write kind rows =>
    { x with
      writer := (TextWriter.write host.floatRepr rt kind kind.columns kind.keyFields kind.tsField none
        x.writer rows).1 }
  | .run readable cutoff =>
    let (landing, total) := runTexts host readable cutoff x.writer.texts x.landing
    { x with landing, raised := x.raised || total.isNone }

end GridWitness.Acquirer
