import GridWitness.Server.Standing

namespace GridWitness.Server

open Library

theorem Standing.call_other {id : String} {c : Database.Call} (h : c.target ≠ some id) (st : Standing) :
    st.call id c = st := by
  cases c with
  | createNode now n =>
    have hid : id ≠ n.nodeId := fun heq => h (by rw [heq]; rfl)
    cases st <;> simp [call, hid]
  | updateConsent j channels loc =>
    have hid : id ≠ j := fun heq => h (by rw [heq]; rfl)
    cases st <;> simp [call, hid]
  | deleteNode now j =>
    have hid : id ≠ j := fun heq => h (by rw [heq]; rfl)
    cases st <;> simp [call, hid]
  | _ => rfl

/-- An erased node stays erased. -/
theorem Standing.call_erased (tombstone id : String) (c : Database.Call) :
    (erased tombstone).call id c = erased tombstone := by
  cases c <;> rfl

namespace Database

/-- What the tables hold of an id in a consistent store. -/
inductive Held (db : Database) (id : String) : Standing → Prop
  | absent (row : db.nodes.lookup id = none) (token : db.tokens.lookup id = none)
      (priv : db.nodePrivate.lookup id = none) : Held db id .absent
  | live (row : NodeRow) (token : String) (priv : PrivateRow) (kept : row.deletedUtc = none)
      (hrow : db.nodes.lookup id = some row) (htoken : db.tokens.lookup id = some token)
      (hpriv : db.nodePrivate.lookup id = some priv) : Held db id (.live row token priv)
  | erased (row : NodeRow) (tombstone : String) (gone : row.deletedUtc.isSome)
      (hrow : db.nodes.lookup id = some row) (token : db.tokens.lookup id = none)
      (priv : db.nodePrivate.lookup id = none) (htombstone : db.tombstones.lookup id = some tombstone) :
    Held db id (.erased tombstone)

variable {db db' : Database} {id : String} {st : Standing}

theorem Consistent.held (hdb : db.Consistent) (id : String) : db.Held id (db.standing id) := by
  simp only [standing]
  have htokens := hdb.tokens id
  have hpriv := hdb.nodePrivate id
  have htomb := hdb.tombstones id
  cases hrow : db.nodes.lookup id with
  | none =>
    rw [lifecycle_absent hrow] at htokens hpriv
    exact .absent hrow (by simpa using htokens) (by simpa using hpriv)
  | some row =>
    cases hgone : row.deletedUtc.isSome with
    | true =>
      have hlife : db.lifecycle id = .deleted := by simp [lifecycle, rowLifecycle, hrow, hgone]
      rw [hlife] at htokens hpriv htomb
      obtain ⟨tombstone, htombstone⟩ := Option.isSome_iff_exists.mp (htomb.mpr rfl)
      simp only [hgone, if_true, htombstone, Option.getD_some]
      exact .erased row tombstone hgone hrow (by simpa using htokens) (by simpa using hpriv) htombstone
    | false =>
      have hlife : db.lifecycle id = .live := by simp [lifecycle, rowLifecycle, hrow, hgone]
      obtain ⟨token, htoken⟩ := Option.isSome_iff_exists.mp (htokens.mpr hlife)
      obtain ⟨priv, hpriv⟩ := Option.isSome_iff_exists.mp (hpriv.mpr hlife)
      simp only [hgone, Bool.false_eq_true, if_false, htoken, hpriv]
      exact .live row token priv (by simpa using hgone) hrow htoken hpriv

theorem Held.standing_eq (h : db.Held id st) : db.standing id = st := by
  cases h with
  | absent row token priv => simp [standing, row]
  | live row token priv kept hrow htoken hpriv => simp [standing, hrow, kept, htoken, hpriv]
  | erased row tombstone gone hrow token priv htombstone => simp [standing, hrow, gone, htombstone]

/-- Tables that agree at an id hold the same there. -/
theorem Held.congr (h : db.Held id st) (hnodes : db'.nodes.lookup id = db.nodes.lookup id)
    (htokens : db'.tokens.lookup id = db.tokens.lookup id)
    (hpriv : db'.nodePrivate.lookup id = db.nodePrivate.lookup id)
    (htomb : db'.tombstones.lookup id = db.tombstones.lookup id) : db'.Held id st := by
  cases h with
  | absent row token priv => exact .absent (hnodes.trans row) (htokens.trans token) (hpriv.trans priv)
  | live row token priv kept hrow htoken hpriv' =>
    exact .live row token priv kept (hnodes.trans hrow) (htokens.trans htoken) (hpriv.trans hpriv')
  | erased row tombstone gone hrow token priv htombstone =>
    exact .erased row tombstone gone (hnodes.trans hrow) (htokens.trans token) (hpriv.trans priv)
      (htomb.trans htombstone)

/-- A creation goes through exactly for an id that was never used. -/
theorem createNode_created (hdb : db.Consistent) (now : String) (n : NewNode) :
    (db.createNode now n).2 = true ↔ db.standing n.nodeId = .absent := by
  constructor
  · intro h
    obtain ⟨-, -, habsent, -⟩ := hdb.created h
    have hheld := hdb.held n.nodeId
    generalize db.standing n.nodeId = st at hheld
    cases hheld with
    | absent => rfl
    | live row token priv kept hrow => simp [lifecycle, rowLifecycle, hrow, kept] at habsent
    | erased row tombstone gone hrow => simp [lifecycle, rowLifecycle, hrow, gone] at habsent
  · intro h
    have hheld := hdb.held n.nodeId
    rw [h] at hheld
    cases hheld with
    | absent row token priv =>
      obtain ⟨nodes, hnodes⟩ := Option.isSome_iff_exists.mp
        (Table.insertRow_isSome (v := nodeRow now n) row)
      obtain ⟨tokens, htokens⟩ := Option.isSome_iff_exists.mp
        (Table.insertRow_isSome (v := n.tokenSha256) token)
      obtain ⟨nodePrivate, hpriv⟩ := Option.isSome_iff_exists.mp
        (Table.insertRow_isSome (v := (⟨n.postcode, n.rawRegion, n.contributorRef⟩ : PrivateRow)) priv)
      simp [createNode, hnodes, htokens, hpriv]

theorem createNode_held (hdb : db.Consistent) (now : String) (n : NewNode) (id : String) :
    (db.createNode now n).1.Held id ((db.standing id).call id (.createNode now n)) := by
  have hheld := hdb.held id
  cases hcreated : (db.createNode now n).2 with
  | false =>
    rw [hdb.collide hcreated]
    have hused : db.standing n.nodeId ≠ .absent := by
      intro habsent
      rw [(createNode_created hdb now n).mpr habsent] at hcreated
      cases hcreated
    cases hst : db.standing id with
    | absent =>
      have hid : id ≠ n.nodeId := by
        rintro rfl
        exact hused hst
      rw [hst] at hheld
      simpa [Standing.call, hid] using hheld
    | live row token priv => rwa [hst] at hheld
    | erased tombstone => rwa [hst] at hheld
  | true =>
    obtain ⟨db', heq, -, hnodes, htokens, hpriv, htomb⟩ := hdb.created hcreated
    have habsent := (createNode_created hdb now n).mp hcreated
    rw [heq]
    by_cases hid : id = n.nodeId
    · subst hid
      rw [habsent]
      simp only [Standing.call, if_true]
      exact .live _ _ _ rfl (by rw [hnodes, if_pos rfl]) (by rw [htokens, if_pos rfl])
        (by rw [hpriv, if_pos rfl])
    · have hsame : db'.Held id (db.standing id) := hheld.congr (by rw [hnodes, if_neg hid])
        (by rw [htokens, if_neg hid]) (by rw [hpriv, if_neg hid]) (by rw [htomb])
      cases hst : db.standing id with
      | absent =>
        rw [hst] at hsame
        simpa [Standing.call, hid] using hsame
      | live row token priv => rwa [hst] at hsame
      | erased tombstone => rwa [hst] at hsame

theorem updateConsent_held (hdb : db.Consistent) (j : String) (channels : Option (List Channel))
    (loc : Option LocationUpdate) (id : String) :
    (db.updateConsent j channels loc).Held id ((db.standing id).call id (.updateConsent j channels loc)) := by
  have hheld := hdb.held id
  have hrow := lookup_updateConsent db j channels loc id
  have hpriv := nodePrivate_updateConsent db j channels loc id
  have htokens := congrArg (·.lookup id) (tokens_updateConsent db j channels loc)
  have htomb := congrArg (·.lookup id) (tombstones_updateConsent db j channels loc)
  by_cases hid : id = j
  · subst hid
    rw [if_pos rfl] at hrow hpriv
    generalize db.standing id = st at hheld
    cases hheld with
    | absent row token priv => exact .absent (by rw [hrow, row]; rfl) (htokens.trans token) (by rw [hpriv, priv]; rfl)
    | live row token priv kept hrow' htoken hpriv' =>
      simp only [Standing.call, if_true]
      exact .live _ _ _ kept (by rw [hrow, hrow']; rfl) (htokens.trans htoken) (by rw [hpriv, hpriv']; rfl)
    | erased row tombstone gone hrow' token priv htombstone =>
      exact .erased (consentRow channels loc row) tombstone gone (by rw [hrow, hrow']; rfl) (htokens.trans token)
        (by rw [hpriv, priv]; rfl) (htomb.trans htombstone)
  · rw [if_neg hid] at hrow hpriv
    have hsame := hheld.congr hrow htokens hpriv htomb
    cases hst : db.standing id with
    | absent => rwa [hst] at hsame
    | live row token priv =>
      rw [hst] at hsame
      simpa [Standing.call, hid] using hsame
    | erased tombstone => rwa [hst] at hsame

theorem deleteNode_held (hdb : db.Consistent) (now j id : String) :
    (db.deleteNode now j).1.Held id ((db.standing id).call id (.deleteNode now j)) := by
  have hheld := hdb.held id
  rcases deleteNode_cases db now j with ⟨heq, hlife⟩ | ⟨heq, hlife⟩
  · rw [heq]
    generalize db.standing id = st at hheld
    cases hheld with
    | absent row token priv => exact .absent row token priv
    | live row token priv kept hrow htoken hpriv =>
      have hid : id ≠ j := by
        rintro rfl
        simp [lifecycle, rowLifecycle, hrow, kept] at hlife
      simp only [Standing.call, if_neg hid]
      exact .live row token priv kept hrow htoken hpriv
    | erased row tombstone gone hrow token priv htombstone =>
      exact .erased row tombstone gone hrow token priv htombstone
  · rw [heq]
    by_cases hid : id = j
    · subst hid
      generalize db.standing id = st at hheld
      cases hheld with
      | absent row => simp [lifecycle, rowLifecycle, row] at hlife
      | live row token priv kept hrow htoken hpriv =>
        simp only [Standing.call, if_true]
        exact .erased { row with deletedUtc := some now } now rfl
          (by rw [erase, Table.lookup_updateRow, if_pos rfl, hrow]; rfl)
          (by rw [erase, Table.lookup_deleteRow, if_pos rfl]) (by rw [erase, Table.lookup_deleteRow, if_pos rfl])
          (by rw [erase, Table.lookup_replaceRow, if_pos rfl])
      | erased row tombstone gone hrow => simp [lifecycle, rowLifecycle, hrow, gone] at hlife
    · have hsame : (db.erase now j).Held id (db.standing id) := hheld.congr
        (by rw [erase, Table.lookup_updateRow, if_neg hid]) (by rw [erase, Table.lookup_deleteRow, if_neg hid])
        (by rw [erase, Table.lookup_deleteRow, if_neg hid]) (by rw [erase, Table.lookup_replaceRow, if_neg hid])
      cases hst : db.standing id with
      | absent => rwa [hst] at hsame
      | live row token priv =>
        rw [hst] at hsame
        simpa [Standing.call, hid] using hsame
      | erased tombstone => rwa [hst] at hsame

/-- The four tables refine one standing for each id: a call does to them what it does to the standings. -/
theorem standing_call (hdb : db.Consistent) (c : Call) (id : String) :
    (db.call c).standing id = (db.standing id).call id c := by
  cases c with
  | createNode now n => exact (createNode_held hdb now n id).standing_eq
  | updateConsent j channels loc => exact (updateConsent_held hdb j channels loc id).standing_eq
  | deleteNode now j => exact (deleteNode_held hdb now j id).standing_eq
  | getNode => rfl
  | getTokenHash => rfl
  | getContributorRef => rfl
  | getNodesByContributor => rfl

section Read

variable (hdb : db.Consistent) (id : String)

include hdb

theorem getNode_standing : db.getNode id = (db.standing id).node id := by
  have hheld := hdb.held id
  generalize db.standing id = st at hheld
  cases hheld with
  | absent row => simp [getNode, row, Standing.node]
  | live row token priv kept hrow => simp [getNode, hrow, kept, Standing.node]
  | erased row tombstone gone hrow =>
    simp only [getNode, hrow, Standing.node]
    cases hd : row.deletedUtc with
    | none => simp [hd] at gone
    | some utc => rfl

theorem getTokenHash_standing : db.getTokenHash id = (db.standing id).token := by
  have hheld := hdb.held id
  generalize db.standing id = st at hheld
  cases hheld with
  | absent row token => exact token
  | live row token priv kept hrow htoken => exact htoken
  | erased row tombstone gone hrow token => exact token

theorem getContributorRef_standing : db.getContributorRef id = (db.standing id).owner := by
  have hheld := hdb.held id
  generalize db.standing id = st at hheld
  cases hheld with
  | absent row token priv => simp [getContributorRef, priv, Standing.owner]
  | live row token priv kept hrow htoken hpriv => simp [getContributorRef, hpriv, Standing.owner]
  | erased row tombstone gone hrow token priv => simp [getContributorRef, priv, Standing.owner]

end Read

end Database

end GridWitness.Server
