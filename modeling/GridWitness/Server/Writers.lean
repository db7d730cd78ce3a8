import GridWitness.Library.Trace
import GridWitness.Server.Staging

namespace GridWitness.Server

open Library

/-- The processes that append to one staging tree. -/
inductive Writer
  | server | survey
  deriving DecidableEq

/-- Where a call of `_append` stands between two of its effects. -/
inductive Appending
  | idle
  | next (todo : List (StagingPath × List Row))
  | checked (p : StagingPath) (newFile : Bool) (group : List Row)
      (todo : List (StagingPath × List Row))
  | header (p : StagingPath) (group : List Row) (todo : List (StagingPath × List Row))
  | rows (p : StagingPath) (group : List Row) (todo : List (StagingPath × List Row))

/-- Two writers of electrical rows, each under a lock of its own, over one tree. `asked` are the rows
their calls have for each file, and `appended` those it got. -/
structure Writers where
  tree : StagingTree
  call : Writer → Appending
  asked : StagingPath → List Row
  appended : StagingPath → List Row

inductive WriterEvent
  | append (i : Writer) (batch : List (ElectricalRow × Node))
  | resume (i : Writer)

namespace Writers

variable (x : Writers) (i : Writer)

def start (tree : StagingTree) : Writers := ⟨tree, fun _ => .idle, fun _ => [], fun _ => []⟩

def setCall (a : Appending) : Writers := { x with call := Function.update x.call i a }

def project (batch : List (ElectricalRow × Node)) : List Row :=
  batch.map fun (row, node) => projectElectrical row node

def pathOf (rt : Runtime) (r : Row) : Option StagingPath :=
  StagingWriter.path rt .electrical "ts_utc" r

/-- The files a call goes through; none when a timestamp raises. -/
def buckets (rt : Runtime) (rows : List Row) : Option (List (StagingPath × List Row)) :=
  (StagingWriter.paths rt .electrical "ts_utc" rows).map fun located =>
    Bucket.mapGroups (·.map (·.2)) (Bucket.bucket (·.1) located)

/-- A call of `_append`; the lock lets one in at a time. -/
def append (rt : Runtime) (rows : List Row) : Writers :=
  match x.call i, buckets rt rows with
  | .idle, some todo =>
    { x with asked := fun p => x.asked p ++ rows.filter (pathOf rt · = some p) }.setCall i (.next todo)
  | _, _ => x

/-- The next effect of a call. -/
def resume : Writers :=
  match x.call i with
  | .idle => x
  | .next [] => x.setCall i .idle
  | .next ((p, group) :: todo) => x.setCall i (.checked p (decide (p ∉ x.tree)) group todo)
  | .checked p newFile group todo =>
    { x with tree := x.tree.appendLines p [] }.setCall i
      (if newFile then .header p group todo else .rows p group todo)
  | .header p group todo =>
    { x with
      tree := x.tree.appendLines p [StagingWriter.header electricalCsvColumns] }.setCall i
      (.rows p group todo)
  | .rows p (r :: group) todo =>
    { x with
      tree := x.tree.appendLines p [StagingWriter.csvLine electricalCsvColumns r]
      appended := Function.update x.appended p (x.appended p ++ [r]) }.setCall i
      (.rows p group todo)
  | .rows _ [] todo => x.setCall i (.next todo)

def step (rt : Runtime) (x : Writers) : WriterEvent → Writers
  | .append i batch => x.append i rt (project batch)
  | .resume i => x.resume i

end Writers

end GridWitness.Server
