import GridWitness.Server.Site

namespace GridWitness.Survey

open Library Server

structure ParsedRow where
  tsUtc : String
  phase : String
  voltageV : Option PyFloat
  frequencyHz : Option PyFloat

structure ParseResult where
  rows : List ParsedRow
  read : Nat
  kept : Nat
  dropped : Nat
  note : Option String := none
  deferred : Bool := false

/-- `parse_file` as the host of a drain runs it, by name and content; none is an exception. -/
abbrev Parser := String → Content → Option ParseResult

def phaseOf (phase : String) : Option Phase :=
  [Phase.l1, .l2, .l3, .single].find? fun p => p.value = phase

/-- The row model applied to a parsed row; none is a validation error. -/
def ParsedRow.validate (pr : ParsedRow) : Option ElectricalRow :=
  match phaseOf pr.phase with
  | none => none
  | some phase =>
    if h : saneFreq pr.frequencyHz then
      some
        { tsUtc := pr.tsUtc
          tsSource := .device
          phase
          voltageV := pr.voltageV
          frequencyHz := pr.frequencyHz
          sane := h }
    else none

/-- Validate the rows of a file and project the consented ones. -/
def stagedRows (node : Node) : List ParsedRow → Option (List Row)
  | [] => some []
  | pr :: rows =>
    match pr.validate, stagedRows node rows with
    | some row, some staged =>
      if (row.presentChannels.filter (· ∉ node.channels)) = [] then
        some (projectElectrical row node :: staged)
      else some staged
    | _, _ => none

/-- What the parse of the data files leaves in local variables. -/
structure Work where
  staged : List Row
  handled : List String
  deferred : List String
  reports : List FileReport

def parseFiles (parseFile : Parser) (node : Node) : List (String × Content) → Option Work
  | [] => some ⟨[], [], [], []⟩
  | (name, content) :: files =>
    match parseFile name content with
    | none => none
    | some res =>
      if res.deferred then
        (parseFiles parseFile node files).map fun w =>
          { w with
            deferred := name :: w.deferred
            reports := .pending name res.note :: w.reports }
      else
        match stagedRows node res.rows, parseFiles parseFile node files with
        | some rows, some w =>
          some
            { staged := rows ++ w.staged
              handled := name :: w.handled
              deferred := w.deferred
              reports := .parsed name res.read res.kept res.dropped res.note :: w.reports }
        | _, _ => none

def dataFiles (inbox : Folder) : List (String × Content) :=
  ((inbox.keys.filter (· ≠ "manifest.json")).insertionSort (· ≤ ·)).filterMap fun name =>
    (inbox.lookup name).map (name, ·)

inductive Outcome
  | purgedWithdrawn
  | pqdifPending (rowsStaged : Nat) (pending : List String)
  | processed (rowsStaged files : Nat)
  | error

/-- Where `process_survey` stands between two of its effects. -/
inductive Stage
  | start
  | described (manifest : Manifest)
  | withdrawn
  | purging
  | loaded (manifest : Manifest) (node : Node)
  | parsed (manifest : Manifest) (work : Work)
  | staged (manifest : Manifest) (work : Work) (accepted dups : Nat)
  | archiving (manifest : Manifest) (work : Work) (accepted dups : Nat)
  | moving (manifest : Manifest) (work : Work) (accepted dups : Nat) (remaining : List String)
  | cleaning (accepted files : Nat)
  | finished (outcome : Outcome)

/-- What one step of a drain draws from the outside: the clock and the file system. -/
structure Tick where
  now : String := ""
  fault : Option AppendFault := none

/-- The volume together with the dedupe window of the drain. -/
structure Drain where
  site : Site
  dedupe : Deduper := StagingWriter.freshDeduper

namespace Drain

def withInbox (d : Drain) (inbox : Table String Folder) : Drain :=
  { d with site := { d.site with surveys := { d.site.surveys with inbox } } }

def withArchive (d : Drain) (archive : Table String Folder) : Drain :=
  { d with site := { d.site with surveys := { d.site.surveys with archive } } }

/-- Write a file into the archive folder of a node; none when there is no such folder. -/
def writeArchive (d : Drain) (id name : String) (content : Content) : Option Drain :=
  (d.site.surveys.archive.lookup id).map fun folder =>
    d.withArchive (d.site.surveys.archive.replaceRow id (folder.replaceRow name content))

def writeInbox (d : Drain) (id name : String) (content : Content) : Option Drain :=
  (d.site.surveys.inbox.lookup id).map fun folder =>
    d.withInbox (d.site.surveys.inbox.replaceRow id (folder.replaceRow name content))

def readManifest (d : Drain) (id : String) : Option Manifest :=
  match (d.site.surveys.inbox.lookup id).bind (·.lookup "manifest.json") with
  | none => some {}
  | some (.manifest m) => some m
  | some _ => none

def makeArchive (d : Drain) (id : String) : Drain :=
  d.withArchive (d.site.surveys.archive.replaceRow id ((d.site.surveys.archive.lookup id).getD ∅))

/-- `shutil.move` of a file from the inbox folder of a node to its archive folder. -/
def moveFile (d : Drain) (id name : String) : Option Drain :=
  match d.site.surveys.inbox.lookup id with
  | none => none
  | some folder =>
    match folder.lookup name with
    | none => none
    | some content =>
      (d.writeArchive id name content).map fun d =>
        d.withInbox (d.site.surveys.inbox.replaceRow id (folder.deleteRow name))

end Drain

def extractedName (now : String) : String :=
  "extracted_" ++ String.ofList (now.toList.filter fun c => c ≠ ':' && c ≠ '.') ++ ".csv"

def extractedLines (rows : List Row) : List Line :=
  StagingWriter.header electricalCsvColumns :: rows.map (StagingWriter.csvLine electricalCsvColumns)

def processedManifest (m : Manifest) (w : Work) (accepted dups : Nat) (now : String) : Manifest :=
  { m with
    processedUtc := some now
    rowsStaged := some (m.rowsStaged.getD 0 + accepted)
    rowsDuplicate := some dups
    files := some (.reports w.reports)
    status := some (if w.deferred = [] then "processed" else "pqdif_pending")
    pendingFiles := if w.deferred = [] then m.pendingFiles else some w.deferred }

section Step

variable (rt : Runtime) (parseFile : Parser) (id : String)

/-- One effect of `process_survey` on the survey of a node. -/
def step (tick : Tick) (d : Drain) : Stage → Drain × Stage
  | .start =>
    match d.readManifest id with
    | none => (d, .finished .error)
    | some m => (d, .described m)
  | .described m =>
    match d.site.db.getNode id with
    | none => (d, .withdrawn)
    | some node => (d, .loaded m node)
  | .withdrawn => (d.withInbox (d.site.surveys.inbox.deleteRow id), .purging)
  | .purging =>
    (d.withArchive (d.site.surveys.archive.deleteRow id), .finished .purgedWithdrawn)
  | .loaded m node =>
    match (d.site.surveys.inbox.lookup id).bind fun inbox =>
      parseFiles parseFile node (dataFiles inbox) with
    | none => (d, .finished .error)
    | some w => (d, .parsed m w)
  | .parsed m w =>
    match StagingWriter.writeElectrical rt tick.fault ⟨d.site.tree, d.dedupe⟩ w.staged with
    | (writer, none) => (⟨{ d.site with tree := writer.tree }, writer.dedupe⟩, .finished .error)
    | (writer, some (accepted, dups)) =>
      (⟨{ d.site with tree := writer.tree }, writer.dedupe⟩, .staged m w accepted dups)
  | .staged m w accepted dups => (d.makeArchive id, .archiving m w accepted dups)
  | .archiving m w accepted dups =>
    if w.staged = [] then (d, .moving m w accepted dups w.handled)
    else
      match d.writeArchive id (extractedName tick.now) (.extracted (extractedLines w.staged)) with
      | none => (d, .finished .error)
      | some d => (d, .moving m w accepted dups w.handled)
  | .moving m w accepted dups (name :: remaining) =>
    match d.moveFile id name with
    | none => (d, .finished .error)
    | some d => (d, .moving m w accepted dups remaining)
  | .moving m w accepted dups [] =>
    let manifest := .manifest (processedManifest m w accepted dups tick.now)
    if w.deferred = [] then
      match d.writeArchive id "manifest.json" manifest with
      | none => (d, .finished .error)
      | some d => (d, .cleaning accepted w.handled.length)
    else
      match d.writeInbox id "manifest.json" manifest with
      | none => (d, .finished .error)
      | some d => (d, .finished (.pqdifPending accepted w.deferred))
  | .cleaning accepted files =>
    (d.withInbox (d.site.surveys.inbox.deleteRow id), .finished (.processed accepted files))
  | .finished outcome => (d, .finished outcome)

/-- The steps of `process_survey`, at most `fuel` of them. -/
def run (ticks : Nat → Tick) : Nat → Drain → Stage → Drain × Stage
  | 0, d, stage => (d, stage)
  | fuel + 1, d, stage =>
    let (d, stage) := step rt parseFile id (ticks fuel) d stage
    run ticks fuel d stage

/-- Steps enough for any survey: nine effects beside one move for each file of the inbox. -/
def fuelFor (d : Drain) : Nat :=
  9 + ((d.site.surveys.inbox.lookup id).elim 0 fun folder => folder.keys.length)

def processSurvey (ticks : Nat → Tick) (d : Drain) : Drain × Stage :=
  run rt parseFile id ticks (fuelFor id d) d .start

end Step

/-- One run of the worker: every folder the inbox holds at its start, in order of name. -/
def drain (rt : Runtime) (parseFile : Parser) (ticks : String → Nat → Tick) (site : Site) : Site :=
  ((site.surveys.inbox.keys.insertionSort (· ≤ ·)).foldl
    (fun d id => (processSurvey rt parseFile id (ticks id) d).1) { site }).site

end GridWitness.Survey
