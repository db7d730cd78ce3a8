import GridWitness.Library.Trace
import GridWitness.Server.Database

namespace GridWitness.Server

open Library

/-- The life of a node id: it is created once, erased once, and never comes back. -/
inductive Lifecycle
  | absent | live | deleted
  deriving DecidableEq

inductive Lifecycle.Moves : Lifecycle → Lifecycle → Prop
  | stay : Moves l l
  | create : Moves .absent .live
  | delete : Moves .live .deleted

theorem Lifecycle.Moves.of_deleted {l : Lifecycle} (h : Moves .deleted l) : l = .deleted := by
  cases h
  rfl

theorem Lifecycle.Moves.ne_absent {l l' : Lifecycle} (h : l.Moves l') (hl : l ≠ .absent) :
    l' ≠ .absent := by
  cases h with
  | stay => exact hl
  | create => exact Lifecycle.noConfusion
  | delete => exact Lifecycle.noConfusion

namespace Database

def rowLifecycle : Option NodeRow → Lifecycle
  | none => .absent
  | some row => if row.deletedUtc.isSome then .deleted else .live

def lifecycle (db : Database) (id : String) : Lifecycle := rowLifecycle (db.nodes.lookup id)

/-- Tokens and private rows belong to the live nodes, tombstones to the deleted ones. -/
structure Consistent (db : Database) : Prop where
  tokens : ∀ id, (db.tokens.lookup id).isSome ↔ db.lifecycle id = .live
  nodePrivate : ∀ id, (db.nodePrivate.lookup id).isSome ↔ db.lifecycle id = .live
  tombstones : ∀ id, (db.tombstones.lookup id).isSome ↔ db.lifecycle id = .deleted

theorem empty_consistent : Consistent {} := by
  constructor <;> intro id <;> simp [lifecycle, rowLifecycle]

theorem lifecycle_absent {db : Database} {id : String} (h : db.nodes.lookup id = none) :
    db.lifecycle id = .absent := by
  simp [lifecycle, rowLifecycle, h]

theorem getNode_isSome {db : Database} {id : String} :
    (db.getNode id).isSome ↔ db.lifecycle id = .live := by
  simp only [getNode, lifecycle]
  cases h : db.nodes.lookup id with
  | none => simp [rowLifecycle]
  | some row => cases hd : row.deletedUtc <;> simp [rowLifecycle, hd]

/-- In a consistent store a creation either changes nothing or completes all three inserts. -/
theorem createNode_cases {db : Database} (hdb : db.Consistent) (now : String) (n : NewNode) :
    db.createNode now n = (db, false) ∨
      ∃ db', db.createNode now n = (db', true) ∧ db.lifecycle n.nodeId = .absent ∧
        (∀ id, db'.nodes.lookup id =
          if id = n.nodeId then some (nodeRow now n) else db.nodes.lookup id) ∧
        (∀ id, db'.tokens.lookup id =
          if id = n.nodeId then some n.tokenSha256 else db.tokens.lookup id) ∧
        (∀ id, db'.nodePrivate.lookup id =
          if id = n.nodeId then some ⟨n.postcode, n.rawRegion, n.contributorRef⟩
          else db.nodePrivate.lookup id) ∧
        db'.tombstones = db.tombstones := by
  cases hn : db.nodes.insertRow n.nodeId (nodeRow now n) with
  | none => exact Or.inl (by simp [createNode, hn])
  | some nodes =>
    obtain ⟨habs, hnodes⟩ := Table.insertRow_eq_some hn
    have hlife := lifecycle_absent habs
    have ht : db.tokens.lookup n.nodeId = none := by
      rw [← Option.not_isSome_iff_eq_none, hdb.tokens, hlife]
      decide
    have hp : db.nodePrivate.lookup n.nodeId = none := by
      rw [← Option.not_isSome_iff_eq_none, hdb.nodePrivate, hlife]
      decide
    obtain ⟨tokens, htok⟩ := Option.isSome_iff_exists.mp
      (Table.insertRow_isSome (v := n.tokenSha256) ht)
    obtain ⟨priv, hpriv⟩ := Option.isSome_iff_exists.mp
      (Table.insertRow_isSome (v := (⟨n.postcode, n.rawRegion, n.contributorRef⟩ : PrivateRow)) hp)
    refine Or.inr ⟨{ db with nodes, tokens, nodePrivate := priv }, ?_, hlife, hnodes, ?_, ?_, rfl⟩
    · simp [createNode, hn, htok, hpriv]
    · exact (Table.insertRow_eq_some htok).2
    · exact (Table.insertRow_eq_some hpriv).2

theorem Consistent.collide {db : Database} (hdb : db.Consistent) {now : String} {n : NewNode}
    (h : (db.createNode now n).2 = false) : (db.createNode now n).1 = db := by
  rcases createNode_cases hdb now n with heq | ⟨db', heq, -⟩
  · rw [heq]
  · rw [heq] at h
    cases h

/-- A creation that goes through completes all three inserts. -/
theorem Consistent.created {db : Database} (hdb : db.Consistent) {now : String} {n : NewNode}
    (h : (db.createNode now n).2 = true) :
    ∃ db', db.createNode now n = (db', true) ∧ db.lifecycle n.nodeId = .absent ∧
      (∀ id, db'.nodes.lookup id =
        if id = n.nodeId then some (nodeRow now n) else db.nodes.lookup id) ∧
      (∀ id, db'.tokens.lookup id =
        if id = n.nodeId then some n.tokenSha256 else db.tokens.lookup id) ∧
      (∀ id, db'.nodePrivate.lookup id =
        if id = n.nodeId then some ⟨n.postcode, n.rawRegion, n.contributorRef⟩
        else db.nodePrivate.lookup id) ∧
      db'.tombstones = db.tombstones := by
  refine (createNode_cases hdb now n).resolve_left fun heq => ?_
  rw [heq] at h
  cases h

theorem createNode_consistent {db : Database} (hdb : db.Consistent) (now : String) (n : NewNode) :
    (db.createNode now n).1.Consistent := by
  rcases createNode_cases hdb now n with h | ⟨db', h, habs, hn, ht, hp, htomb⟩
  · rwa [h]
  · rw [h]
    have hlife : ∀ id, db'.lifecycle id = if id = n.nodeId then .live else db.lifecycle id := by
      intro id
      simp only [lifecycle, hn]
      split <;> simp [rowLifecycle, nodeRow]
    constructor
    · intro id
      rw [ht, hlife]
      split
      · simp
      · exact hdb.tokens id
    · intro id
      rw [hp, hlife]
      split
      · simp
      · exact hdb.nodePrivate id
    · intro id
      rw [htomb, hlife, hdb.tombstones]
      split
      · next heq => simp [heq, habs]
      · rfl

theorem createNode_moves {db : Database} (hdb : db.Consistent) (now : String) (n : NewNode)
    (id : String) : (db.lifecycle id).Moves ((db.createNode now n).1.lifecycle id) := by
  rcases createNode_cases hdb now n with h | ⟨db', h, habs, hn, -, -, -⟩
  · rw [h]
    exact .stay
  · rw [h]
    simp only [lifecycle, hn]
    split
    · next heq =>
      rw [heq, show rowLifecycle (db.nodes.lookup n.nodeId) = .absent from habs]
      exact .create
    · exact .stay

/-- What `update_consent` makes of the row of its node. -/
def consentRow (channels : Option (List Channel)) (loc : Option LocationUpdate)
    (row : NodeRow) : NodeRow where
  createdUtc := row.createdUtc
  deviceType := row.deviceType
  firmware := row.firmware
  cadenceMs := row.cadenceMs
  locTier := loc.elim row.locTier (·.locTier)
  locRef := loc.elim row.locRef (·.locRef)
  cellId := loc.elim row.cellId (·.cellId)
  channels := channels.elim row.channels sorted
  producer := row.producer
  deletedUtc := row.deletedUtc

def consentPrivate (loc : Option LocationUpdate) (priv : PrivateRow) : PrivateRow :=
  { priv with postcode := loc.elim priv.postcode (·.postcode) }

section UpdateConsent

variable (db : Database) (id : String) (channels : Option (List Channel))
  (loc : Option LocationUpdate)

theorem lookup_updateConsent (j : String) :
    (db.updateConsent id channels loc).nodes.lookup j =
      if j = id then (db.nodes.lookup id).map (consentRow channels loc)
      else db.nodes.lookup j := by
  by_cases hj : j = id
  · subst hj
    cases hrow : db.nodes.lookup j <;> cases channels <;> cases loc <;>
      simp [updateConsent, Table.lookup_updateRow, hrow, consentRow]
  · cases channels <;> cases loc <;> simp [updateConsent, Table.lookup_updateRow, hj]

theorem nodePrivate_updateConsent (j : String) :
    (db.updateConsent id channels loc).nodePrivate.lookup j =
      if j = id then (db.nodePrivate.lookup id).map (consentPrivate loc)
      else db.nodePrivate.lookup j := by
  by_cases hj : j = id
  · subst hj
    cases hrow : db.nodePrivate.lookup j <;> cases channels <;> cases loc <;>
      simp [updateConsent, Table.lookup_updateRow, hrow, consentPrivate]
  · cases channels <;> cases loc <;> simp [updateConsent, Table.lookup_updateRow, hj]

@[simp] theorem tokens_updateConsent : (db.updateConsent id channels loc).tokens = db.tokens := by
  cases channels <;> cases loc <;> rfl

@[simp] theorem tombstones_updateConsent :
    (db.updateConsent id channels loc).tombstones = db.tombstones := by
  cases channels <;> cases loc <;> rfl

@[simp] theorem lifecycle_updateConsent (j : String) :
    (db.updateConsent id channels loc).lifecycle j = db.lifecycle j := by
  simp only [lifecycle, lookup_updateConsent]
  split
  · next h =>
    rw [h]
    cases db.nodes.lookup id <;> rfl
  · rfl

theorem updateConsent_consistent {db : Database} (hdb : db.Consistent) :
    (db.updateConsent id channels loc).Consistent := by
  constructor
  · intro j
    simpa using hdb.tokens j
  · intro j
    rw [nodePrivate_updateConsent, lifecycle_updateConsent, ← hdb.nodePrivate j]
    split
    · next h => rw [h, Option.isSome_map]
    · rfl
  · intro j
    simpa using hdb.tombstones j

end UpdateConsent

theorem lifecycle_erase {db : Database} {id : String} (h : db.lifecycle id = .live)
    (now j : String) :
    (db.erase now id).lifecycle j = if j = id then .deleted else db.lifecycle j := by
  simp only [lifecycle, erase, Table.lookup_updateRow]
  split
  · cases hrow : db.nodes.lookup id with
    | none => simp [lifecycle, rowLifecycle, hrow] at h
    | some row => simp [rowLifecycle]
  · rfl

/-- An erasure either finds no live node or erases it. -/
theorem deleteNode_cases (db : Database) (now id : String) :
    (db.deleteNode now id = (db, false) ∧ db.lifecycle id ≠ .live) ∨
      (db.deleteNode now id = (db.erase now id, true) ∧ db.lifecycle id = .live) := by
  cases hrow : db.nodes.lookup id with
  | none => exact Or.inl ⟨by simp [deleteNode, hrow], by simp [lifecycle, rowLifecycle, hrow]⟩
  | some row =>
    cases hd : row.deletedUtc.isSome with
    | true =>
      exact Or.inl ⟨by simp [deleteNode, hrow, hd], by simp [lifecycle, rowLifecycle, hrow, hd]⟩
    | false =>
      exact Or.inr ⟨by simp [deleteNode, hrow, hd], by simp [lifecycle, rowLifecycle, hrow, hd]⟩

theorem deleteNode_deleted {db : Database} {now id : String} :
    (db.deleteNode now id).2 = true ↔ db.lifecycle id = .live := by
  rcases deleteNode_cases db now id with ⟨h, hlive⟩ | ⟨h, hlive⟩
  · rw [h]
    exact iff_of_false Bool.false_ne_true hlive
  · rw [h]
    exact iff_of_true rfl hlive

theorem deleteNode_consistent {db : Database} (hdb : db.Consistent) (now id : String) :
    (db.deleteNode now id).1.Consistent := by
  rcases deleteNode_cases db now id with ⟨h, -⟩ | ⟨h, hlive⟩
  · rwa [h]
  · rw [h]
    constructor
    · intro j
      rw [lifecycle_erase hlive, erase, Table.lookup_deleteRow]
      split
      · simp
      · exact hdb.tokens j
    · intro j
      rw [lifecycle_erase hlive, erase, Table.lookup_deleteRow]
      split
      · simp
      · exact hdb.nodePrivate j
    · intro j
      rw [lifecycle_erase hlive, erase, Table.lookup_replaceRow]
      split
      · simp
      · exact hdb.tombstones j

theorem deleteNode_moves (db : Database) (now id j : String) :
    (db.lifecycle j).Moves ((db.deleteNode now id).1.lifecycle j) := by
  rcases deleteNode_cases db now id with ⟨h, -⟩ | ⟨h, hlive⟩
  · rw [h]
    exact .stay
  · rw [h, lifecycle_erase hlive]
    split
    · next heq =>
      rw [heq, hlive]
      exact .delete
    · exact .stay

theorem getNode_nodeId {db : Database} {id : String} {node : Node}
    (h : db.getNode id = some node) : node.nodeId = id := by
  simp only [getNode] at h
  split at h
  · split at h
    · cases h
      rfl
    · cases h
  · cases h

theorem mem_getNodesByContributor {db : Database} {ref : String} {node : Node}
    (h : node ∈ db.getNodesByContributor ref) : db.getNode node.nodeId = some node := by
  obtain ⟨id, -, hid⟩ := List.mem_filterMap.mp ((List.mem_insertionSort _).mp h)
  split at hid
  · rwa [getNode_nodeId hid]
  · cases hid

theorem keys_createNode (db : Database) (now : String) (n : NewNode) :
    Table.Moves n.nodeId db.nodes.keys (db.createNode now n).1.nodes.keys := by
  rw [createNode]
  split
  · exact Or.inl rfl
  · next hnodes =>
    split
    · exact Table.keys_insertRow hnodes
    · split <;> exact Table.keys_insertRow hnodes

theorem keys_updateConsent (db : Database) (id : String) (channels : Option (List Channel))
    (loc : Option LocationUpdate) : Table.Moves id db.nodes.keys (db.updateConsent id channels loc).nodes.keys := by
  cases channels with
  | none =>
    cases loc with
    | none => exact Or.inl rfl
    | some l => exact Table.keys_updateRow ..
  | some cs =>
    cases loc with
    | none => exact Table.keys_updateRow ..
    | some l => exact (Table.keys_updateRow db.nodes id _).trans (Table.keys_updateRow ..)

theorem keys_deleteNode (db : Database) (now id : String) :
    Table.Moves id db.nodes.keys (db.deleteNode now id).1.nodes.keys := by
  rcases deleteNode_cases db now id with ⟨heq, -⟩ | ⟨heq, -⟩
  · rw [heq]
    exact Or.inl rfl
  · rw [heq]
    exact Table.keys_updateRow ..

/-- The list of an account shows no change of a node that is not its own. -/
theorem getNodesByContributor_same {db db' : Database} {ref j : String}
    (hkeys : Table.Moves j db.nodes.keys db'.nodes.keys)
    (hj : db.getContributorRef j ≠ some ref) (hj' : db'.getContributorRef j ≠ some ref)
    (hnodes : ∀ id, id ≠ j → db'.nodes.lookup id = db.nodes.lookup id)
    (hpriv : ∀ id, id ≠ j → db'.nodePrivate.lookup id = db.nodePrivate.lookup id) :
    db'.getNodesByContributor ref = db.getNodesByContributor ref := by
  rw [getNodesByContributor, getNodesByContributor]
  refine congrArg _ (hkeys.filterMap (if_neg hj) (if_neg hj') fun id hid => ?_)
  have howner : db'.getContributorRef id = db.getContributorRef id := by
    rw [getContributorRef, getContributorRef, hpriv id hid]
  have hnode : db'.getNode id = db.getNode id := by rw [getNode, getNode, hnodes id hid]
  rw [howner, hnode]

/-- One atomic call of a `Database` method. -/
inductive Call
  | createNode (now : String) (n : NewNode)
  | updateConsent (id : String) (channels : Option (List Channel)) (loc : Option LocationUpdate)
  | deleteNode (now id : String)
  | getNode (id : String)
  | getTokenHash (id : String)
  | getContributorRef (id : String)
  | getNodesByContributor (contributorRef : String)

def call (db : Database) : Call → Database
  | .createNode now n => (db.createNode now n).1
  | .updateConsent id channels loc => db.updateConsent id channels loc
  | .deleteNode now id => (db.deleteNode now id).1
  | .getNode _ => db
  | .getTokenHash _ => db
  | .getContributorRef _ => db
  | .getNodesByContributor _ => db

theorem call_consistent {db : Database} (hdb : db.Consistent) (c : Call) :
    (db.call c).Consistent := by
  cases c with
  | createNode now n => exact createNode_consistent hdb now n
  | updateConsent id channels loc => exact updateConsent_consistent id channels loc hdb
  | deleteNode now id => exact deleteNode_consistent hdb now id
  | getNode id => exact hdb
  | getTokenHash id => exact hdb
  | getContributorRef id => exact hdb
  | getNodesByContributor ref => exact hdb

/-- A call moves every node along its life: the store refines the lifecycle. -/
theorem call_moves {db : Database} (hdb : db.Consistent) (c : Call) (id : String) :
    (db.lifecycle id).Moves ((db.call c).lifecycle id) := by
  cases c with
  | createNode now n => exact createNode_moves hdb now n id
  | updateConsent j channels loc =>
    simp only [call, lifecycle_updateConsent]
    exact .stay
  | deleteNode now j => exact deleteNode_moves db now j id
  | getNode j => exact .stay
  | getTokenHash j => exact .stay
  | getContributorRef j => exact .stay
  | getNodesByContributor ref => exact .stay

theorem calls_consistent {db : Database} (hdb : db.Consistent) (cs : List Call) :
    (cs.foldl call db).Consistent :=
  Trace.foldl_invariant (I := Consistent) (fun _ c h => call_consistent h c) hdb cs

theorem calls_deleted {db : Database} (hdb : db.Consistent) {id : String}
    (hid : db.lifecycle id = .deleted) (cs : List Call) :
    (cs.foldl call db).lifecycle id = .deleted := by
  have keep : ∀ (d : Database) c, d.Consistent ∧ d.lifecycle id = .deleted →
      (call d c).Consistent ∧ (call d c).lifecycle id = .deleted := by
    rintro d c ⟨hd, hdel⟩
    exact ⟨call_consistent hd c, (hdel ▸ call_moves hd c id).of_deleted⟩
  exact (Trace.foldl_invariant (I := fun d : Database => d.Consistent ∧ d.lifecycle id = .deleted)
    keep ⟨hdb, hid⟩ cs).2

/-- Erasure is complete and permanent: over every sequence of calls the token, private and
tombstone rows follow the life of the node, a live node that is deleted is erased, and an erased node
stays out of every read. -/
theorem erasure_complete_and_permanent (cs later : List Call) (id : String) :
    let db := cs.foldl call {}
    let db' := later.foldl call db
    (db.lifecycle id = .live ↔
      (db.tokens.lookup id).isSome ∧ (db.nodePrivate.lookup id).isSome) ∧
    (db.lifecycle id = .deleted ↔
      (db.tombstones.lookup id).isSome ∧ db.tokens.lookup id = none ∧
        db.nodePrivate.lookup id = none) ∧
    (db.lifecycle id = .live → ∀ now, (db.deleteNode now id).2 = true ∧
      (db.deleteNode now id).1.lifecycle id = .deleted) ∧
    (db.lifecycle id = .deleted →
      db'.lifecycle id = .deleted ∧ db'.getNode id = none ∧ db'.getTokenHash id = none ∧
        db'.getContributorRef id = none ∧ db'.nodePrivate.lookup id = none ∧
        ∀ ref, ∀ node ∈ db'.getNodesByContributor ref, node.nodeId ≠ id) := by
  intro db db'
  have hdb : db.Consistent := calls_consistent empty_consistent cs
  have hdb' : db'.Consistent := calls_consistent hdb later
  refine ⟨?_, ?_, fun hlive now => ?_, ?_⟩
  · rw [hdb.tokens, hdb.nodePrivate, and_self_iff]
  · rw [hdb.tombstones, ← Option.not_isSome_iff_eq_none, ← Option.not_isSome_iff_eq_none,
      hdb.tokens, hdb.nodePrivate]
    cases db.lifecycle id <;> simp
  · rcases deleteNode_cases db now id with ⟨-, hdead⟩ | ⟨h, -⟩
    · exact absurd hlive hdead
    · rw [h, lifecycle_erase hlive]
      exact ⟨rfl, if_pos rfl⟩
  · intro hdel
    have hdel' : db'.lifecycle id = .deleted := calls_deleted hdb hdel later
    have hnode : db'.getNode id = none := by
      rw [← Option.not_isSome_iff_eq_none, getNode_isSome, hdel']
      decide
    have htoken : db'.tokens.lookup id = none := by
      rw [← Option.not_isSome_iff_eq_none, hdb'.tokens, hdel']
      decide
    have hpriv : db'.nodePrivate.lookup id = none := by
      rw [← Option.not_isSome_iff_eq_none, hdb'.nodePrivate, hdel']
      decide
    refine ⟨hdel', hnode, htoken, by simp [getContributorRef, hpriv], hpriv, ?_⟩
    rintro ref node hmem rfl
    rw [mem_getNodesByContributor hmem] at hnode
    cases hnode

end Database

end GridWitness.Server
