import GridWitness.Server.DatabaseLaws

namespace GridWitness.Server

open Library

/-- What the node store holds of an id: nothing, a live node with its token and its private row, or that the
node was erased. -/
inductive Standing
  | absent
  | live (row : NodeRow) (token : String) (priv : PrivateRow)
  | erased (tombstone : String)
  deriving DecidableEq

namespace Standing

def token : Standing → Option String
  | live _ token _ => some token
  | _ => none

def owner : Standing → Option String
  | live _ _ priv => priv.contributorRef
  | _ => none

def node (id : String) : Standing → Option Node
  | live row _ _ => some ⟨row, id⟩
  | _ => none

/-- What a call makes of the standing of an id. -/
def call (id : String) (st : Standing) : Database.Call → Standing
  | .createNode now n =>
    match st with
    | absent =>
      if id = n.nodeId then
        live (Database.nodeRow now n) n.tokenSha256 ⟨n.postcode, n.rawRegion, n.contributorRef⟩
      else absent
    | st => st
  | .updateConsent j channels loc =>
    match st with
    | live row token priv =>
      if id = j then live (Database.consentRow channels loc row) token (Database.consentPrivate loc priv)
      else live row token priv
    | st => st
  | .deleteNode now j =>
    match st with
    | live row token priv => if id = j then erased now else live row token priv
    | st => st
  | _ => st

end Standing

namespace Database

/-- The id a call acts on. -/
def Call.target : Call → Option String
  | .createNode _ n => some n.nodeId
  | .updateConsent id _ _ => some id
  | .deleteNode _ id => some id
  | _ => none

/-- What the four tables say of an id. -/
def standing (db : Database) (id : String) : Standing :=
  match db.nodes.lookup id with
  | none => .absent
  | some row =>
    if row.deletedUtc.isSome then .erased ((db.tombstones.lookup id).getD "")
    else
      match db.tokens.lookup id, db.nodePrivate.lookup id with
      | some token, some priv => .live row token priv
      | _, _ => .absent

end Database

end GridWitness.Server
