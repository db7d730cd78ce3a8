import GridWitness.Server.Account
import GridWitness.Survey.Crash

namespace GridWitness.Survey

open Library Server

inductive Area
  | archive | inbox
  deriving DecidableEq

namespace Area

def folders (surveys : Surveys) : Area → Table String Folder
  | .archive => surveys.archive
  | .inbox => surveys.inbox

def file (area : Area) (d : Drain) (id name : String) : Option Content :=
  ((area.folders d.site.surveys).lookup id).bind (·.lookup name)

/-- The scan of the folder of a node: its names, in order; there may be no folder. -/
def scan (area : Area) (d : Drain) (id : String) : List String :=
  (((area.folders d.site.surveys).lookup id).getD ∅).keys.insertionSort (· ≤ ·)

end Area

/-- Where `account_export` stands between two of its accesses: with nodes still to do, at the files of
one folder of a node, or between the check that a file is there and the copy of it. -/
inductive ExportStage
  | pending
  | next (todo : List Node)
  | copying (area : Area) (node : Node) (names : List String) (fileCount : Nat) (todo : List Node)
  | writing (area : Area) (node : Node) (name : String) (names : List String) (fileCount : Nat)
      (todo : List Node)
  | finished (bundle : AccountExport)
  | failed

def surveySummary (node : Node) (fileCount : Nat) : SurveySummary where
  nodeId := node.nodeId
  deviceType := node.deviceType
  locRef := node.locRef
  channels := sorted node.channels
  createdUtc := node.createdUtc
  filesIncluded := fileCount

/-- A request for an export, past its credential, with the files written and the summary so far. -/
structure Export where
  contributorRef : String
  files : List (String × Content)
  surveys : List SurveySummary
  stage : ExportStage

namespace Export

def start (contributorRef : String) : Export := ⟨contributorRef, [], [], .pending⟩

/-- One access of `account_export` to the database or the disk; a file that is gone before it is
copied is an exception. -/
def step (d : Drain) (now : String) (x : Export) : Export :=
  match x.stage with
  | .pending => { x with stage := .next (d.site.db.getNodesByContributor x.contributorRef) }
  | .next [] => { x with stage := .finished ⟨x.files, x.contributorRef, now, x.surveys⟩ }
  | .next (node :: todo) =>
    { x with stage := .copying .archive node (Area.archive.scan d node.nodeId) 0 todo }
  | .copying area node (name :: names) fileCount todo =>
    if (area.file d node.nodeId name).isSome then
      { x with stage := .writing area node name names fileCount todo }
    else { x with stage := .copying area node names fileCount todo }
  | .copying .archive node [] fileCount todo =>
    { x with stage := .copying .inbox node (Area.inbox.scan d node.nodeId) fileCount todo }
  | .copying .inbox node [] fileCount todo =>
    { x with
      surveys := x.surveys ++ [surveySummary node fileCount]
      stage := .next todo }
  | .writing area node name names fileCount todo =>
    match area.file d node.nodeId name with
    | none => { x with stage := .failed }
    | some content =>
      { x with
        files := x.files ++ [(node.nodeId ++ "/" ++ name, content)]
        stage := .copying area node names (fileCount + 1) todo }
  | .finished _ => x
  | .failed => x

/-- The answer of a request that has one. -/
def answer (x : Export) : Option AccountExport :=
  match x.stage with
  | .finished bundle => some bundle
  | _ => none

end Export

/-- The names of the entries of the zip. -/
def entryNames (bundle : AccountExport) : List String :=
  "README.txt" :: (bundle.files.map (·.1) ++ ["manifest.json"])

/-- A request for an export next to the drains of the worker. -/
structure Exporting where
  drains : Drains
  request : Export

inductive ExportEvent
  | request (now : String)
  | worker (e : DrainEvent)

namespace Exporting

def start (site : Site) (parseFile : Parser) (contributorRef : String) : Exporting :=
  ⟨.start site parseFile, .start contributorRef⟩

def step (rt : Runtime) (x : Exporting) : ExportEvent → Exporting
  | .request now => { x with request := x.request.step x.drains.drain now }
  | .worker e => { x with drains := x.drains.step rt e }

end Exporting

end GridWitness.Survey
