import GridWitness.Library.Trace
import GridWitness.Server.SurveyUpload
import GridWitness.Survey.Worker

namespace GridWitness.Survey

open Library Server

/-- What one call of `survey_upload` writes once its form is checked: a node, the files it accepted
under their stored names and in the chunks they are read in, and the manifest. -/
structure Job where
  node : NewNode
  now : String
  files : List (String × List Bytes)
  manifest : Manifest
  nodup : (files.map (·.1)).Nodup
  plain : ∀ name ∈ files.map (·.1), name ≠ "manifest.json" ∧ ∀ now, name ≠ extractedName now

def Job.id (job : Job) : String := job.node.nodeId

/-- The files as they will be when they are written. -/
def Job.whole (job : Job) : List (String × Bytes) := job.files.map fun f => (f.1, f.2.flatten)

/-- Where an open file is by now: a moved file takes its handle along, and a removed one keeps it. -/
inductive Place
  | inbox | archive | gone

/-- Where an upload stands between two of its effects, with the files it has written and closed. -/
inductive Progress
  | provision
  | makeInbox
  | next (done : List (String × Bytes)) (todo : List (String × List Bytes))
  | writing (done : List (String × Bytes)) (name : String) (written : Bytes) (left : List Bytes)
      (todo : List (String × List Bytes)) (place : Place)
  | finished (done : List (String × Bytes))
  | failed (done : List (String × Bytes))

namespace Progress

def done : Progress → List (String × Bytes)
  | .provision => []
  | .makeInbox => []
  | .next done _ => done
  | .writing done _ _ _ _ _ => done
  | .finished done => done
  | .failed done => done

def isOver : Progress → Bool
  | .finished _ => true
  | .failed _ => true
  | _ => false

/-- The inbox folder is there, and the upload goes on. -/
def busy : Progress → Bool
  | .next _ _ => true
  | .writing _ _ _ _ _ _ => true
  | _ => false

def relocate (f : String → Place → Place) : Progress → Progress
  | .writing done name written left todo place =>
    .writing done name written left todo (f name place)
  | p => p

end Progress

/-- Where the worker stands: between drains, between surveys, or in a survey; of those it has listed
some remain. In `reading` it has listed the data files of a survey and parses one after the other. -/
inductive WorkerStage
  | idle
  | draining (remaining : List String)
  | survey (id : String) (remaining : List String) (stage : Stage)
  | reading (id : String) (remaining : List String) (m : Manifest) (node : Node)
      (names : List String) (work : Work)

/-- One upload and the worker over the volume they share. Of the files of the survey, `offered` were
given to the parser, `listed` were in the folder when the worker listed it, and `early` were read
after the last listing and before the upload had closed them. -/
structure Intake where
  drain : Drain
  worker : WorkerStage
  upload : Progress
  offered : List (String × Content)
  listed : List String
  early : List String

inductive IntakeEvent
  | upload
  | failure
  | worker (tick : Tick) (parseFile : Parser)

namespace Drain

def inboxFile (d : Drain) (id name : String) : Option Content :=
  (d.site.surveys.inbox.lookup id).bind (·.lookup name)

def archiveFile (d : Drain) (id name : String) : Option Content :=
  (d.site.surveys.archive.lookup id).bind (·.lookup name)

/-- A write through the handle of an open file. -/
def rewrite (d : Drain) (id name : String) (content : Content) : Place → Drain
  | .inbox => (d.writeInbox id name content).getD d
  | .archive => (d.writeArchive id name content).getD d
  | .gone => d

end Drain

def dataNames (inbox : Folder) : List String :=
  (inbox.keys.filter (· ≠ "manifest.json")).insertionSort (· ≤ ·)

/-- One round of the loop over the data files. -/
def readFile (parseFile : Parser) (node : Node) (name : String) (content : Content) (w : Work) :
    Option Work :=
  match parseFile name content with
  | none => none
  | some res =>
    if res.deferred then
      some
        { w with
          deferred := w.deferred ++ [name]
          reports := w.reports ++ [.pending name res.note] }
    else
      (stagedRows node res.rows).map fun rows =>
        { staged := w.staged ++ rows
          handled := w.handled ++ [name]
          deferred := w.deferred
          reports := w.reports ++ [.parsed name res.read res.kept res.dropped res.note] }

/-- What a step of a survey does to an open file of its inbox folder. -/
def place (before after : Stage) (name : String) : Place → Place
  | .inbox =>
    match before, after with
    | .moving _ _ _ _ (moved :: _), .moving _ _ _ _ _ => if moved = name then .archive else .inbox
    | .cleaning _ _, _ => .gone
    | .withdrawn, _ => .gone
    | _, _ => .inbox
  | .archive =>
    match before with
    | .purging => .gone
    | _ => .archive
  | .gone => .gone

namespace Intake

variable (job : Job) (x : Intake)

def start (site : Site) : Intake := ⟨{ site }, .idle, .provision, [], [], []⟩

/-- The next effect of the upload. -/
def uploadStep : Intake :=
  match x.upload with
  | .provision =>
    let (db, created) := x.drain.site.db.createNode job.now job.node
    { x with
      drain := { x.drain with site := { x.drain.site with db } }
      upload := if created then .makeInbox else .failed [] }
  | .makeInbox =>
    let inbox := x.drain.site.surveys.inbox
    { x with
      drain := x.drain.withInbox (inbox.replaceRow job.id ((inbox.lookup job.id).getD ∅))
      upload := .next [] job.files }
  | .next done [] =>
    match x.drain.writeInbox job.id "manifest.json" (.manifest job.manifest) with
    | none => { x with upload := .failed done }
    | some drain => { x with drain, upload := .finished done }
  | .next done ((name, chunks) :: todo) =>
    match x.drain.writeInbox job.id name (.raw []) with
    | none => { x with upload := .failed done }
    | some drain => { x with drain, upload := .writing done name [] chunks todo .inbox }
  | .writing done name written (chunk :: left) todo place =>
    { x with
      drain := x.drain.rewrite job.id name (.raw (written ++ chunk)) place
      upload := .writing done name (written ++ chunk) left todo place }
  | .writing done name written [] todo _ => { x with upload := .next (done ++ [(name, written)]) todo }
  | .finished _ => x
  | .failed _ => x

def read (name : String) (content : Content) : Intake :=
  { x with
    offered := (name, content) :: x.offered
    early := if name ∈ x.upload.done.map (·.1) then x.early else name :: x.early }

/-- The next effect of the worker. -/
def workerStep (rt : Runtime) (parseFile : Parser) (tick : Tick) : Intake :=
  let inbox := x.drain.site.surveys.inbox
  match x.worker with
  | .idle =>
    { x with
      drain := { x.drain with dedupe := StagingWriter.freshDeduper }
      worker := .draining (inbox.keys.insertionSort (· ≤ ·)) }
  | .draining [] => { x with worker := .idle }
  | .draining (id :: remaining) => { x with worker := .survey id remaining .start }
  | .survey _ remaining (.finished _) => { x with worker := .draining remaining }
  | .survey id remaining (.loaded m node) =>
    match inbox.lookup id with
    | none => { x with worker := .survey id remaining (.finished .error) }
    | some folder =>
      let names := dataNames folder
      { (if id = job.id then { x with listed := names ++ x.listed, early := [] } else x) with
        worker := .reading id remaining m node names ⟨[], [], [], []⟩ }
  | .survey id remaining stage =>
    let (drain, stage') := step rt parseFile id tick x.drain stage
    { x with
      drain
      worker := .survey id remaining stage'
      upload := if id = job.id then x.upload.relocate (place stage stage') else x.upload }
  | .reading id remaining m _ [] work =>
    { x with worker := .survey id remaining (.parsed m work) }
  | .reading id remaining m node (name :: names) work =>
    match x.drain.inboxFile id name with
    | none => { x with worker := .survey id remaining (.finished .error) }
    | some content =>
      let worker := match readFile parseFile node name content work with
        | none => .survey id remaining (.finished .error)
        | some work => .reading id remaining m node names work
      { (if id = job.id then x.read name content else x) with worker }

def step (rt : Runtime) : IntakeEvent → Intake
  | .upload => x.uploadStep job
  | .failure => if x.upload.isOver then x else { x with upload := .failed x.upload.done }
  | .worker tick parseFile => x.workerStep job rt parseFile tick

end Intake

end GridWitness.Survey
