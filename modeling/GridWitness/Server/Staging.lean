import GridWitness.Library.Bucket
import GridWitness.Library.Table
import GridWitness.Library.Window
import GridWitness.Server.Privacy

namespace GridWitness.Server

open Library

/-- The staging file `<kind>/dt=<date>/<hour>.csv`. -/
structure StagingPath where
  kind : Kind
  date : String
  hour : String
  deriving DecidableEq

/-- A line of a CSV file; the first line of an intact file is its header. -/
abbrev Line := List Cell

abbrev StagingTree := Table StagingPath (List Line)

namespace StagingTree

def lines (tree : StagingTree) (p : StagingPath) : List Line := (tree.lookup p).getD []

/-- Open a file for append, creating it, and write lines. -/
def appendLines (tree : StagingTree) (p : StagingPath) (ls : List Line) : StagingTree :=
  tree.replaceRow p (tree.lines p ++ ls)

end StagingTree

abbrev Deduper := Window (List Cell)

def dedupeKey (keyFields : List String) (r : Row) : List Cell := keyFields.map r.get

def Deduper.filterNew (d : Deduper) (keyFields : List String) : List Row → Deduper × List Row × Nat
  | [] => (d, [], 0)
  | r :: rows =>
    if h : dedupeKey keyFields r ∈ d.seen then
      let (d, unique, dups) := filterNew d keyFields rows
      (d, unique, dups + 1)
    else
      let (d, unique, dups) := filterNew (d.push (dedupeKey keyFields r) h) keyFields rows
      (d, r :: unique, dups)

/-- The keys the window does not hold yet. -/
def Deduper.unseen (d : Deduper) (keys : List (List Cell)) : List (List Cell) :=
  keys.filter (· ∉ d.seen)

/-- Where the file system makes an append raise: in which file of the batch, and how many
lines reached it. Opening the file itself fails at `none`. -/
structure AppendFault where
  file : Nat
  written : Option Nat

structure StagingWriter where
  tree : StagingTree
  dedupe : Deduper

namespace StagingWriter

def electricalKey : List String := ["node_id", "ts_utc", "phase"]

def weatherKey : List String := ["node_id", "time"]

def freshDeduper : Deduper := Window.empty 200000

/-- The file a row belongs to; none when its timestamp raises. -/
def path (rt : Runtime) (kind : Kind) (tsField : String) (r : Row) : Option StagingPath :=
  match r.get tsField with
  | .text ts => (rt.parseIso ts).map fun dt => ⟨kind, dt.date, dt.hourName⟩
  | _ => none

def header (columns : List String) : Line := columns.map .text

def csvLine (columns : List String) (r : Row) : Line := columns.map r.get

/-- What the writer sends to one file: a header first if the file is new. -/
def output (columns : List String) (tree : StagingTree) (p : StagingPath) (group : List Row) :
    List Line :=
  let rows := group.map (csvLine columns)
  if p ∈ tree then rows else header columns :: rows

def appendBuckets (columns : List String) (tree : StagingTree) :
    Option AppendFault → List (StagingPath × List Row) → StagingTree × Bool
  | _, [] => (tree, true)
  | some ⟨0, none⟩, _ :: _ => (tree, false)
  | some ⟨0, some n⟩, (p, group) :: _ =>
    (tree.appendLines p ((output columns tree p group).take n), false)
  | some ⟨k + 1, written⟩, (p, group) :: rest =>
    appendBuckets columns (tree.appendLines p (output columns tree p group))
      (some ⟨k, written⟩) rest
  | none, (p, group) :: rest =>
    appendBuckets columns (tree.appendLines p (output columns tree p group)) none rest

/-- Every path is computed before any file is opened. -/
def paths (rt : Runtime) (kind : Kind) (tsField : String) :
    List Row → Option (List (StagingPath × Row))
  | [] => some []
  | r :: rows =>
    match path rt kind tsField r, paths rt kind tsField rows with
    | some p, some ps => some ((p, r) :: ps)
    | _, _ => none

def append (rt : Runtime) (kind : Kind) (columns : List String) (tsField : String)
    (fault : Option AppendFault) (tree : StagingTree) (rows : List Row) : StagingTree × Bool :=
  match paths rt kind tsField rows with
  | none => (tree, false)
  | some located =>
    let buckets := Bucket.mapGroups (·.map (·.2)) (Bucket.bucket (·.1) located)
    appendBuckets columns tree fault buckets

/-- The two writers: none is an exception, which leaves the dedupe window updated. -/
def write (rt : Runtime) (kind : Kind) (columns keyFields : List String) (tsField : String)
    (fault : Option AppendFault) (w : StagingWriter) (rows : List Row) :
    StagingWriter × Option (Nat × Nat) :=
  let (dedupe, unique, dups) := w.dedupe.filterNew keyFields rows
  let (tree, completed) := append rt kind columns tsField fault w.tree unique
  (⟨tree, dedupe⟩, if completed then some (unique.length, dups) else none)

def writeElectrical (rt : Runtime) (fault : Option AppendFault) (w : StagingWriter)
    (rows : List Row) : StagingWriter × Option (Nat × Nat) :=
  write rt .electrical electricalCsvColumns electricalKey "ts_utc" fault w rows

def writeWeather (rt : Runtime) (fault : Option AppendFault) (w : StagingWriter)
    (rows : List Row) : StagingWriter × Option (Nat × Nat) :=
  write rt .weather weatherCsvColumns weatherKey "time" fault w rows

end StagingWriter

end GridWitness.Server
