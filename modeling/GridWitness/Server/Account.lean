import GridWitness.Server.Handlers

namespace GridWitness.Server

open Library

structure AdminNodeView where
  nodeId : String
  deviceType : String
  firmware : Option String
  cadenceMs : Option Int
  locTier : LocTier
  locRef : Option String
  cellId : Option String
  channels : List Channel
  producer : Option String
  createdUtc : String

def AdminNodeView.ofNode (node : Node) : AdminNodeView where
  nodeId := node.nodeId
  deviceType := node.deviceType
  firmware := node.firmware
  cadenceMs := node.cadenceMs
  locTier := node.locTier
  locRef := node.locRef
  cellId := node.cellId
  channels := sorted node.channels
  producer := node.producer
  createdUtc := node.createdUtc

def Admin.listNodes (s : App) (xGwInternal : Option String) (contributorRef : String) :
    Except Failure (List AdminNodeView) :=
  match requireInternal s.internalKey xGwInternal with
  | .error e => .error e
  | .ok () => .ok ((s.db.getNodesByContributor contributorRef).map .ofNode)

structure SurveySummary where
  nodeId : String
  deviceType : String
  locRef : Option String
  channels : List Channel
  createdUtc : String
  filesIncluded : Nat

/-- The bundle of an account: the survey files by archive name, and its manifest. -/
structure AccountExport where
  files : List (String × Content)
  contributorRef : String
  exportedUtc : String
  surveys : List SurveySummary

/-- The files of a node in one area, in order of name; there may be no folder. -/
def areaFiles (area : Table String Folder) (nodeId : String) : List (String × Content) :=
  let folder := (area.lookup nodeId).getD ∅
  (folder.keys.insertionSort (· ≤ ·)).filterMap fun name =>
    (folder.lookup name).map (nodeId ++ "/" ++ name, ·)

/-- The files of a survey: archived once it is processed, in the inbox while it is queued. -/
def surveyFiles (surveys : Surveys) (nodeId : String) : List (String × Content) :=
  areaFiles surveys.archive nodeId ++ areaFiles surveys.inbox nodeId

def SurveySummary.ofNode (surveys : Surveys) (node : Node) : SurveySummary where
  nodeId := node.nodeId
  deviceType := node.deviceType
  locRef := node.locRef
  channels := sorted node.channels
  createdUtc := node.createdUtc
  filesIncluded := (surveyFiles surveys node.nodeId).length

def accountExport (s : App) (xGwInternal : Option String) (contributorRef now : String) :
    Except Failure AccountExport :=
  match requireInternal s.internalKey xGwInternal with
  | .error e => .error e
  | .ok () =>
    let nodes := s.db.getNodesByContributor contributorRef
    .ok
      { files := nodes.flatMap fun node => surveyFiles s.surveys node.nodeId
        contributorRef
        exportedUtc := now
        surveys := nodes.map (.ofNode s.surveys) }

end GridWitness.Server
