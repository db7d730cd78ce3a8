import GridWitness.Library.Table
import GridWitness.Server.Catalogue

namespace GridWitness.Server

open Library

structure NodeRow where
  createdUtc : String
  deviceType : String
  firmware : Option String
  cadenceMs : Option Int
  locTier : LocTier
  locRef : Option String
  cellId : Option String
  channels : List Channel
  producer : Option String
  deletedUtc : Option String
  deriving DecidableEq

structure PrivateRow where
  postcode : Option String
  rawRegion : Option String
  contributorRef : Option String
  deriving DecidableEq

structure Database where
  nodes : Table String NodeRow := ∅
  tokens : Table String String := ∅
  nodePrivate : Table String PrivateRow := ∅
  tombstones : Table String String := ∅

structure Node extends NodeRow where
  nodeId : String

structure NewNode where
  nodeId : String
  tokenSha256 : String
  deviceType : String
  firmware : Option String
  cadenceMs : Option Int
  locTier : LocTier
  locRef : Option String
  cellId : Option String
  channels : List Channel
  postcode : Option String
  rawRegion : Option String
  producer : Option String
  contributorRef : Option String

namespace Database

def nodeRow (now : String) (n : NewNode) : NodeRow where
  createdUtc := now
  deviceType := n.deviceType
  firmware := n.firmware
  cadenceMs := n.cadenceMs
  locTier := n.locTier
  locRef := n.locRef
  cellId := n.cellId
  channels := sorted n.channels
  producer := n.producer
  deletedUtc := none

/-- The three inserts of `create_node`; a refused one raises and leaves the earlier ones in
the open transaction. -/
def createNode (db : Database) (now : String) (n : NewNode) : Database × Bool :=
  match db.nodes.insertRow n.nodeId (nodeRow now n) with
  | none => (db, false)
  | some nodes =>
    match db.tokens.insertRow n.nodeId n.tokenSha256 with
    | none => ({ db with nodes }, false)
    | some tokens =>
      match db.nodePrivate.insertRow n.nodeId ⟨n.postcode, n.rawRegion, n.contributorRef⟩ with
      | none => ({ db with nodes, tokens }, false)
      | some nodePrivate => ({ db with nodes, tokens, nodePrivate }, true)

structure LocationUpdate where
  locTier : LocTier
  locRef : Option String
  cellId : Option String
  postcode : Option String

/-- `update_consent`; the location arguments count only together with a `loc_tier`. -/
def updateConsent (db : Database) (nodeId : String) (channels : Option (List Channel))
    (loc : Option LocationUpdate) : Database :=
  let db := match channels with
    | none => db
    | some cs =>
      { db with nodes := db.nodes.updateRow nodeId fun r => { r with channels := sorted cs } }
  match loc with
  | none => db
  | some l =>
    { db with
      nodes := db.nodes.updateRow nodeId fun r =>
        { r with locTier := l.locTier, locRef := l.locRef, cellId := l.cellId }
      nodePrivate := db.nodePrivate.updateRow nodeId fun p => { p with postcode := l.postcode } }

/-- The four statements `delete_node` runs once its guarded update has hit a live row. -/
def erase (db : Database) (now : String) (nodeId : String) : Database where
  nodes := db.nodes.updateRow nodeId fun r => { r with deletedUtc := some now }
  tokens := db.tokens.deleteRow nodeId
  nodePrivate := db.nodePrivate.deleteRow nodeId
  tombstones := db.tombstones.replaceRow nodeId now

def deleteNode (db : Database) (now : String) (nodeId : String) : Database × Bool :=
  match db.nodes.lookup nodeId with
  | none => (db, false)
  | some row => if row.deletedUtc.isSome then (db, false) else (db.erase now nodeId, true)

def getNode (db : Database) (nodeId : String) : Option Node :=
  match db.nodes.lookup nodeId with
  | some row => if row.deletedUtc.isNone then some ⟨row, nodeId⟩ else none
  | none => none

def getTokenHash (db : Database) (nodeId : String) : Option String := db.tokens.lookup nodeId

def getContributorRef (db : Database) (nodeId : String) : Option String :=
  (db.nodePrivate.lookup nodeId).bind (·.contributorRef)

/-- The live nodes of an account, newest first. -/
def getNodesByContributor (db : Database) (contributorRef : String) : List Node :=
  (db.nodes.keys.filterMap fun nodeId =>
    if db.getContributorRef nodeId = some contributorRef then db.getNode nodeId else none).insertionSort
    fun n m => m.createdUtc ≤ n.createdUtc

end Database

end GridWitness.Server
