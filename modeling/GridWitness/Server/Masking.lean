import GridWitness.Server.HistoryLaws

namespace GridWitness.Server

open Library

/-- How the private data of two histories correspond: the token of each node in either of them,
and an injective renaming of accounts. -/
structure Masking where
  token : String → String
  token' : String → String
  ref : String → String
  injective : Function.Injective ref

def Manifest.rename (ref : String → String) (m : Manifest) : Manifest :=
  { m with description := m.description.map fun d => { d with contributorRef := ref d.contributorRef } }

def Content.rename (ref : String → String) : Content → Content
  | .raw bytes => .raw bytes
  | .manifest m => .manifest (m.rename ref)
  | .extracted lines => .extracted lines

/-- Only the manifest of a folder names an account. -/
def Content.at (ref : String → String) (name : String) (c : Content) : Content :=
  if name = "manifest.json" then c.rename ref else c

def Folder.Similar (ref : String → String) (f f' : Folder) : Prop :=
  Table.Rel (fun name c c' => c' = c.at ref name) f f'

def Surveys.Similar (ref : String → String) (t t' : Table String Folder) : Prop :=
  Table.Rel (fun _ => Folder.Similar ref) t t'

structure Database.Similar (rt : Runtime) (M : Masking) (db db' : Database) : Prop where
  nodes : db'.nodes = db.nodes
  tokens : Table.Rel (fun id h h' => h = rt.sha256 (M.token id) ∧ h' = rt.sha256 (M.token' id))
    db.tokens db'.tokens
  nodePrivate : Table.Rel (fun _ p p' => p'.contributorRef = p.contributorRef.map M.ref)
    db.nodePrivate db'.nodePrivate

structure Site.Similar (rt : Runtime) (M : Masking) (site site' : Site) : Prop where
  db : Database.Similar rt M site.db site'.db
  tree : site'.tree = site.tree
  inbox : Surveys.Similar M.ref site.surveys.inbox site'.surveys.inbox
  archive : Surveys.Similar M.ref site.surveys.archive site'.surveys.archive

structure App.Similar (rt : Runtime) (M : Masking) (s s' : App) : Prop where
  site : Site.Similar rt M s.toSite s'.toSite
  internalKey : s'.internalKey = s.internalKey
  dedupe : s'.dedupe = s.dedupe
  limiter : s'.limiter = s.limiter

namespace Database.Similar

variable {rt : Runtime} {M : Masking} {db db' : Database}

theorem getNode (h : Similar rt M db db') (id : String) : db'.getNode id = db.getNode id := by
  rw [Database.getNode, h.nodes, Database.getNode]

/-- A request that presents the token of its node is authenticated alike. -/
theorem authenticateNode (h : Similar rt M db db') (id : String) :
    authenticateNode db' (rt.sha256 (M.token' id)) id =
      authenticateNode db (rt.sha256 (M.token id)) id := by
  have htoken : db'.getTokenHash id = some (rt.sha256 (M.token' id)) ↔
      db.getTokenHash id = some (rt.sha256 (M.token id)) := by
    simp only [Database.getTokenHash]
    rcases h.tokens.lookup id with ⟨hrow, hrow'⟩ | ⟨_, _, hrow, hrow', rfl, rfl⟩
    · rw [hrow, hrow']
      simp
    · rw [hrow, hrow']
      simp
  simp only [Server.authenticateNode, h.getNode, htoken]

theorem ownedNode (h : Similar rt M db db') (id contributorRef : String) :
    ownedNode db' id (M.ref contributorRef) = ownedNode db id contributorRef := by
  have hrefs : ∀ r : Option String, r.map M.ref = some (M.ref contributorRef) ↔
      r = some contributorRef := by
    intro r
    cases r with
    | none => simp
    | some r => simp [M.injective.eq_iff]
  have howner : db'.getContributorRef id = some (M.ref contributorRef) ↔
      db.getContributorRef id = some contributorRef := by
    simp only [Database.getContributorRef]
    rcases h.nodePrivate.lookup id with ⟨hrow, hrow'⟩ | ⟨p, p', hrow, hrow', hp⟩
    · rw [hrow, hrow']
      simp
    · rw [hrow, hrow', Option.bind_some, Option.bind_some, hp]
      exact hrefs _
  simp only [Server.ownedNode, h.getNode, howner]

theorem createNode (h : Similar rt M db db') (now : String) {n n' : NewNode}
    (hid : n'.nodeId = n.nodeId) (hrow : nodeRow now n' = nodeRow now n)
    (htoken : n.tokenSha256 = rt.sha256 (M.token n.nodeId))
    (htoken' : n'.tokenSha256 = rt.sha256 (M.token' n.nodeId))
    (href : n'.contributorRef = n.contributorRef.map M.ref) :
    Similar rt M (db.createNode now n).1 (db'.createNode now n').1 ∧
      (db'.createNode now n').2 = (db.createNode now n).2 := by
  have htokens := h.tokens.insertRow (k := n.nodeId) ⟨htoken, htoken'⟩
  have hprivate : Option.Rel _
      (db.nodePrivate.insertRow n.nodeId ⟨n.postcode, n.rawRegion, n.contributorRef⟩)
      (db'.nodePrivate.insertRow n.nodeId ⟨n'.postcode, n'.rawRegion, n'.contributorRef⟩) :=
    h.nodePrivate.insertRow href
  simp only [Database.createNode, h.nodes, hid, hrow]
  cases db.nodes.insertRow n.nodeId (nodeRow now n) with
  | none => exact ⟨h, rfl⟩
  | some nodes =>
    revert htokens
    generalize db.tokens.insertRow n.nodeId n.tokenSha256 = tokens
    generalize db'.tokens.insertRow n.nodeId n'.tokenSha256 = tokens'
    intro htokens
    cases htokens with
    | none => exact ⟨⟨rfl, h.tokens, h.nodePrivate⟩, rfl⟩
    | some htokens =>
      revert hprivate
      generalize db.nodePrivate.insertRow n.nodeId _ = priv
      generalize db'.nodePrivate.insertRow n.nodeId _ = priv'
      intro hprivate
      cases hprivate with
      | none => exact ⟨⟨rfl, htokens, h.nodePrivate⟩, rfl⟩
      | some hprivate => exact ⟨⟨rfl, htokens, hprivate⟩, rfl⟩

theorem updateConsent (h : Similar rt M db db') (id : String) (channels : Option (List Channel))
    {loc loc' : Option LocationUpdate}
    (hloc : Option.Rel (fun l l' => l'.locTier = l.locTier ∧ l'.locRef = l.locRef ∧
      l'.cellId = l.cellId) loc loc') :
    Similar rt M (db.updateConsent id channels loc) (db'.updateConsent id channels loc') := by
  cases hloc with
  | none => cases channels <;> exact ⟨by simp only [Database.updateConsent, h.nodes], h.tokens,
      h.nodePrivate⟩
  | @some l l' hl =>
    obtain ⟨htier, href, hcell⟩ := hl
    have hprivate : Table.Rel _
        (db.nodePrivate.updateRow id fun p => { p with postcode := l.postcode })
        (db'.nodePrivate.updateRow id fun p => { p with postcode := l'.postcode }) :=
      h.nodePrivate.updateRow fun _ _ hp => hp
    cases channels <;> exact ⟨by simp only [Database.updateConsent, h.nodes, htier, href, hcell],
      h.tokens, hprivate⟩

theorem deleteNode (h : Similar rt M db db') (now id : String) :
    Similar rt M (db.deleteNode now id).1 (db'.deleteNode now id).1 ∧
      (db'.deleteNode now id).2 = (db.deleteNode now id).2 := by
  simp only [Database.deleteNode, h.nodes]
  split
  · exact ⟨h, rfl⟩
  · split
    · exact ⟨h, rfl⟩
    · refine ⟨⟨?_, h.tokens.deleteRow id, h.nodePrivate.deleteRow id⟩, rfl⟩
      simp only [erase, h.nodes]

end Database.Similar

end GridWitness.Server
