import GridWitness.Portal.Pages
import GridWitness.Server.OwnershipLaws

namespace GridWitness.Portal

open Library Server

variable {p : Deployment} {s s' : App} {a : Account} {ref id : String}

/-- What an action does to the server: nothing, a node for the account, or a change of a node the account
owns, which takes a confirmed address. -/
inductive Effect (s : App) (a : Account) : App → Prop
  | none : Effect s a s
  | create (now : String) (n : NewNode) (surveys : Surveys) (owner : n.contributorRef = some a.ref)
      (created : (s.db.createNode now n).2 = true)
      (inbox : ∀ id, id ≠ n.nodeId → surveys.inbox.lookup id = s.surveys.inbox.lookup id)
      (archive : surveys.archive = s.surveys.archive) :
    Effect s a { s with db := (s.db.createNode now n).1, surveys }
  | consent (id : String) (channels : Option (List Channel)) (loc : Option Database.LocationUpdate)
      (confirmed : a.emailConfirmed = true) (owns : s.db.getContributorRef id = some a.ref) :
    Effect s a { s with db := s.db.updateConsent id channels loc }
  | delete (now id : String) (surveys : Surveys) (confirmed : a.emailConfirmed = true)
      (owns : s.db.getContributorRef id = some a.ref)
      (inbox : ∀ j, j ≠ id → surveys.inbox.lookup j = s.surveys.inbox.lookup j)
      (archive : ∀ j, j ≠ id → surveys.archive.lookup j = s.surveys.archive.lookup j) :
    Effect s a { s with db := (s.db.deleteNode now id).1, surveys }

theorem register_effect (rt : Runtime) (hs : s.db.Consistent) (body : RegisterRequest)
    (hbody : body.contributorRef = some a.ref) (xGwInternal clientIp : Option String) (draw : Draw) :
    Effect s a (register rt s body xGwInternal clientIp draw).1 := by
  simp only [register]
  split
  · exact .none
  · split
    · exact .none
    · generalize hn : NewNode.mk draw.nodeId _ _ _ _ _ _ _ _ _ _ _ _ = n
      have howner : n.contributorRef = some a.ref := by rw [← hn, hbody]
      cases hcreated : (s.db.createNode draw.now n).2 with
      | true => exact .create draw.now n s.surveys howner hcreated (fun _ _ => rfl) rfl
      | false =>
        rw [hs.collide hcreated]
        exact .none

theorem surveyUpload_effect (rt : Runtime) (hs : s.db.Consistent) (xGwInternal : Option String)
    (form : SurveyForm) (hform : form.contributorRef = a.ref) (draw : Draw) (uploadedUtc : String) :
    Effect s a (surveyUpload rt s xGwInternal form draw uploadedUtc).1 := by
  have huploaded := surveyUpload_uploaded rt s xGwInternal form draw uploadedUtc
  generalize surveyUpload rt s xGwInternal form draw uploadedUtc = after at huploaded ⊢
  cases huploaded with
  | refuse e => exact .none
  | collide n refused =>
    rw [hs.collide refused]
    exact .none
  | store tier loc n files folder response credential tiered checked resolved node few created =>
    subst node
    refine .create draw.now _ _ (congrArg some hform) created (fun id hid => ?_) rfl
    rw [Table.lookup_replaceRow]
    exact if_neg hid

/-- A request on behalf of an account acts on a node the account owns. -/
theorem admin_effect (rt : Runtime) (hs : s.db.Consistent) (r : Request) (hconfirmed : a.emailConfirmed = true)
    (hr : r.admin = some (id, a.ref)) : Effect s a (s.handle rt r) := by
  have hsamples : ∀ c, r ≠ .samples c := by
    rintro c rfl
    cases hr
  have houtcome := handle_outcome rt s r hsamples
  generalize s.handle rt r = s', s.answer rt r = answer at houtcome ⊢
  cases houtcome with
  | refuse e => exact .none
  | create draw n loc surveys creates created =>
    have hdraw := creates.draws
    rw [(Request.admin_bearer hr).2] at hdraw
    cases hdraw
  | collide now n refused =>
    rw [hs.collide refused]
    exact .none
  | consent q args asked prepared =>
    subst asked
    obtain ⟨rfl, howns⟩ := prepared.authority.admin hr
    rw [← prepared.nodeId] at howns
    exact .consent args.nodeId args.channels args.location hconfirmed howns
  | delete now j surveys authority live unlocated inbox archive =>
    obtain ⟨rfl, howns⟩ := authority.admin hr
    exact .delete now j surveys hconfirmed howns inbox archive

theorem delete_effect (p : Deployment) (hs : s.db.Consistent) (hconfirmed : a.emailConfirmed = true)
    (id now : String) : Effect s a (IngestAdminClient.delete s p.xGwInternal id a.ref now).1 := by
  have heffect := admin_effect p.rt hs (.adminDeleteNode p.xGwInternal id a.ref now) hconfirmed rfl
  rw [App.handle] at heffect
  rw [IngestAdminClient.delete]
  split <;> next hcall => rwa [hcall] at heffect

theorem act_effect (hs : s.db.Consistent) (action : Action) : Effect s a (p.act s a action) := by
  cases action with
  | create vm draw =>
    rw [Deployment.act, Dashboard.create]
    split
    · have heffect := register_effect (a := a) p.rt hs (Dashboard.registerRequest p a vm) rfl p.xGwInternal
        p.clientIp draw
      split <;> next hcall => rwa [hcall] at heffect
    · exact .none
  | updateNode id vm =>
    rw [Deployment.act, Dashboard.updateNode]
    cases hconfirmed : a.emailConfirmed with
    | false => exact .none
    | true =>
      have heffect := admin_effect p.rt hs
        (.adminUpdateNode p.xGwInternal id a.ref (Dashboard.consentUpdate vm)) hconfirmed rfl
      rw [App.handle] at heffect
      simp only [Bool.not_true, Bool.false_eq_true, if_false]
      split <;> next hcall => rwa [hcall] at heffect
  | deleteNode id now =>
    rw [Deployment.act, Dashboard.deleteNode]
    cases hconfirmed : a.emailConfirmed with
    | false => exact .none
    | true =>
      have heffect := delete_effect p hs hconfirmed id now
      simp only [Bool.not_true, Bool.false_eq_true, if_false]
      split <;> next hcall => rwa [hcall] at heffect
  | upload vm files draw uploadedUtc =>
    rw [Deployment.act, Upload.index]
    split
    · have heffect := surveyUpload_effect (a := a) p.rt hs p.xGwInternal
        (Upload.surveyForm p a vm files) rfl draw uploadedUtc
      split <;> next hcall => rwa [hcall] at heffect
    · exact .none
  | withdraw id now =>
    rw [Deployment.act, Upload.withdraw]
    cases hconfirmed : a.emailConfirmed with
    | false => exact .none
    | true =>
      have heffect := delete_effect p hs hconfirmed id now
      simp only [Bool.not_true, Bool.false_eq_true, if_false]
      split <;> next hcall => rwa [hcall] at heffect

theorem Effect.consistent (h : Effect s a s') (hs : s.db.Consistent) : s'.db.Consistent := by
  cases h with
  | none => exact hs
  | create now n surveys owner created inbox archive => exact Database.createNode_consistent hs now n
  | consent id channels loc confirmed owns => exact Database.updateConsent_consistent id channels loc hs
  | delete now id surveys confirmed owns inbox archive => exact Database.deleteNode_consistent hs now id

theorem Effect.internalKey (h : Effect s a s') : s'.internalKey = s.internalKey := by
  cases h <;> rfl

/-- A live node is left alone, but by its own account with a confirmed address. -/
theorem Effect.sameNode (h : Effect s a s') (hs : s.db.Consistent) (hlive : (s.db.getNode id).isSome)
    (hother : a.emailConfirmed = true → s.db.getContributorRef id ≠ some a.ref) : SameNode s s' id := by
  cases h with
  | none => exact .refl s id
  | create now n surveys owner created inbox archive =>
    obtain ⟨db', heq, habsent, hnodes, htokens, hpriv, htomb⟩ := hs.created created
    have hid : id ≠ n.nodeId := by
      rintro rfl
      rw [Database.getNode_isSome, habsent] at hlive
      cases hlive
    rw [heq]
    exact
      { row := by rw [hnodes, if_neg hid]
        token := by rw [htokens, if_neg hid]
        priv := by rw [hpriv, if_neg hid]
        tombstone := by rw [htomb]
        bucket := rfl
        inbox := inbox id hid
        archive := by rw [archive] }
  | consent j channels loc confirmed owns =>
    have hid : id ≠ j := by
      rintro rfl
      exact hother confirmed owns
    exact
      { row := by rw [Database.lookup_updateConsent, if_neg hid]
        token := by rw [Database.tokens_updateConsent]
        priv := by rw [Database.nodePrivate_updateConsent, if_neg hid]
        tombstone := by rw [Database.tombstones_updateConsent]
        bucket := rfl
        inbox := rfl
        archive := rfl }
  | delete now j surveys confirmed owns inbox archive =>
    have hid : id ≠ j := by
      rintro rfl
      exact hother confirmed owns
    rcases Database.deleteNode_cases s.db now j with ⟨heq, -⟩ | ⟨heq, -⟩
    · rw [heq]
      exact ⟨rfl, rfl, rfl, rfl, rfl, inbox id hid, archive id hid⟩
    · rw [heq]
      exact
        { row := by simp only [Database.erase, Table.lookup_updateRow, if_neg hid]
          token := by simp only [Database.erase, Table.lookup_deleteRow, if_neg hid]
          priv := by simp only [Database.erase, Table.lookup_deleteRow, if_neg hid]
          tombstone := by simp only [Database.erase, Table.lookup_replaceRow, if_neg hid]
          bucket := rfl
          inbox := inbox id hid
          archive := archive id hid }

theorem acts_sameNode (hs : s.db.Consistent) (hlive : (s.db.getNode id).isSome) {actions : List (Account × Action)}
    (hothers : ∀ x ∈ actions, x.1.emailConfirmed = true → s.db.getContributorRef id ≠ some x.1.ref) :
    SameNode s (p.acts s actions) id := by
  induction actions generalizing s with
  | nil => exact .refl s id
  | cons x actions ih =>
    obtain ⟨a, action⟩ := x
    obtain ⟨hother, hothers⟩ := List.forall_mem_cons.mp hothers
    have heffect : Effect s a (p.act s a action) := act_effect hs action
    have hsame := heffect.sameNode hs hlive hother
    refine SameNode.trans hsame (ih (heffect.consistent hs) (by rwa [hsame.getNode]) ?_)
    rwa [hsame.getContributorRef]

/-- Whatever accounts do in the portal, in any order: a live node, its rows, its token, its consent and its files
stay as they are, as long as its own account does nothing with a confirmed address. -/
theorem portal_confined (p : Deployment) (internalKey : Option String) (rowsPerMin : ℚ) (before : List Op)
    (actions : List (Account × Action)) (id : String) :
    let s := (App.start internalKey rowsPerMin).after p.rt before
    (s.db.getNode id).isSome →
      (∀ x ∈ actions, x.1.emailConfirmed = true → s.db.getContributorRef id ≠ some x.1.ref) →
        SameNode s (p.acts s actions) id := by
  intro s hlive hothers
  have hs : s.db.Consistent := after_consistent p.rt internalKey rowsPerMin before
  exact acts_sameNode hs hlive hothers

/-- A deployment whose credential is the server's. -/
def plainPortal : Deployment where
  rt := .ascii
  net := .ascii
  xGwInternal := some "key"
  clientIp := none

def aliceNode : List Op :=
  [.request (.register { contributorRef := some "alice" } (some "key") none ⟨"n0", "secret", "2026-07-10T08:00:00Z"⟩)]

def busyNeighbour : List (Account × Action) :=
  [(⟨"bob", true⟩, .create { deviceType := "meter", groups := [], locTier := .anon }
      ⟨"n1", "other", "2026-07-10T08:30:00Z"⟩),
   (⟨"bob", true⟩, .deleteNode "n0" "2026-07-10T09:00:00Z"),
   (⟨"bob", true⟩, .withdraw "n1" "2026-07-10T09:00:00Z")]

/-- The account of the node takes part too, before its address is confirmed. -/
def hastyOwner : List (Account × Action) :=
  (⟨"alice", false⟩, .deleteNode "n0" "2026-07-10T08:15:00Z") :: busyNeighbour

theorem portal_confined_hastyOwner :
    let s := (App.start (some "key") 6000).after .ascii aliceNode
    (s.db.getNode "n0").isSome ∧ SameNode s (plainPortal.acts s hastyOwner) "n0" :=
  ⟨by decide +kernel,
    portal_confined plainPortal (some "key") 6000 aliceNode hastyOwner "n0" (by decide +kernel) (by decide +kernel)⟩

/-- Two states agree on all that an account is shown. -/
structure SameAccount (ref : String) (s s' : App) : Prop where
  internalKey : s'.internalKey = s.internalKey
  nodes : s'.db.getNodesByContributor ref = s.db.getNodesByContributor ref
  same : ∀ node ∈ s.db.getNodesByContributor ref, SameNode s s' node.nodeId

theorem SameAccount.trans {s'' : App} (h : SameAccount ref s s') (h' : SameAccount ref s' s'') :
    SameAccount ref s s'' where
  internalKey := h'.internalKey.trans h.internalKey
  nodes := h'.nodes.trans h.nodes
  same node hnode := (h.same node hnode).trans (h'.same node (by rwa [h.nodes]))

theorem SameAccount.pages (h : SameAccount a.ref s s') : p.pages s' a = p.pages s a := by
  have hlist : Admin.listNodes s' p.xGwInternal a.ref = Admin.listNodes s p.xGwInternal a.ref := by
    rw [Admin.listNodes, Admin.listNodes, h.internalKey, h.nodes]
  have hfiles : ∀ node ∈ s.db.getNodesByContributor a.ref,
      surveyFiles s'.surveys node.nodeId = surveyFiles s.surveys node.nodeId :=
    fun node hnode => (h.same node hnode).surveyFiles
  have hexport : accountExport s' p.xGwInternal a.ref = accountExport s p.xGwInternal a.ref := by
    funext now
    have hbundle : (s.db.getNodesByContributor a.ref).flatMap (fun node => surveyFiles s'.surveys node.nodeId) =
        (s.db.getNodesByContributor a.ref).flatMap fun node => surveyFiles s.surveys node.nodeId :=
      List.flatMap_congr hfiles
    have hsummary : (s.db.getNodesByContributor a.ref).map (.ofNode s'.surveys) =
        (s.db.getNodesByContributor a.ref).map (SurveySummary.ofNode s.surveys) :=
      List.map_congr_left fun node hnode => by rw [SurveySummary.ofNode, SurveySummary.ofNode, hfiles node hnode]
    simp only [accountExport, h.internalKey, h.nodes, hbundle, hsummary]
  have hnode : Dashboard.node s' p.xGwInternal a.ref a.emailConfirmed =
      Dashboard.node s p.xGwInternal a.ref a.emailConfirmed := by
    funext id
    rw [Dashboard.node, Dashboard.node, Dashboard.getNode, Dashboard.getNode, hlist]
  have hexportPage : Upload.exportPage p s' a = Upload.exportPage p s a := by
    funext now
    rw [Upload.exportPage, Upload.exportPage, hexport]
  simp only [Deployment.pages, Dashboard.index, Upload.surveys, hlist, hnode, hexportPage]

/-- What one account does changes nothing another one is shown. -/
theorem Effect.sameAccount (h : Effect s a s') (hs : s.db.Consistent) (href : a.ref ≠ ref) :
    SameAccount ref s s' where
  internalKey := h.internalKey
  nodes := by
    have hother : some a.ref ≠ some ref := fun h => href (Option.some.inj h)
    cases h with
    | none => rfl
    | create now n surveys owner created inbox archive =>
      obtain ⟨db', heq, habsent, hnodes, -, hpriv, -⟩ := hs.created created
      have hfresh : s.db.getContributorRef n.nodeId ≠ some ref := by
        have hnone : ¬(s.db.nodePrivate.lookup n.nodeId).isSome := by simp [hs.nodePrivate, habsent]
        rw [Database.getContributorRef, Option.not_isSome_iff_eq_none.mp hnone]
        simp
      have hkeys := Database.keys_createNode s.db now n
      rw [heq] at hkeys ⊢
      refine Database.getNodesByContributor_same hkeys hfresh ?_ (fun id hid => by rw [hnodes, if_neg hid])
        fun id hid => by rw [hpriv, if_neg hid]
      rw [Database.getContributorRef, hpriv, if_pos rfl, Option.bind_some, owner]
      exact hother
    | consent id channels loc confirmed owns =>
      have howns : s.db.getContributorRef id ≠ some ref := owns ▸ hother
      refine Database.getNodesByContributor_same (Database.keys_updateConsent ..) howns ?_
        (fun j hj => by rw [Database.lookup_updateConsent, if_neg hj])
        fun j hj => by rw [Database.nodePrivate_updateConsent, if_neg hj]
      rwa [Database.getContributorRef_updateConsent]
    | delete now id surveys confirmed owns inbox archive =>
      have howns : s.db.getContributorRef id ≠ some ref := owns ▸ hother
      have hkeys := Database.keys_deleteNode s.db now id
      rcases Database.deleteNode_cases s.db now id with ⟨heq, -⟩ | ⟨heq, -⟩
      · rw [heq]
      · rw [heq] at hkeys ⊢
        refine Database.getNodesByContributor_same hkeys howns ?_
          (fun j hj => by simp only [Database.erase, Table.lookup_updateRow, if_neg hj])
          fun j hj => by simp only [Database.erase, Table.lookup_deleteRow, if_neg hj]
        simp [Database.getContributorRef, Database.erase, Table.lookup_deleteRow]
  same node hnode := by
    obtain ⟨hlive, howner⟩ := Database.mem_getNodesByContributor_owner hnode
    refine h.sameNode hs hlive fun _ howns => href ?_
    rw [howner] at howns
    exact (Option.some.inj howns).symm

theorem acts_sameAccount (hs : s.db.Consistent) {actions : List (Account × Action)}
    (hothers : ∀ x ∈ actions, x.1.ref ≠ ref) : SameAccount ref s (p.acts s actions) := by
  induction actions generalizing s with
  | nil => exact ⟨rfl, rfl, fun node _ => .refl s node.nodeId⟩
  | cons x actions ih =>
    obtain ⟨a, action⟩ := x
    obtain ⟨hother, hothers⟩ := List.forall_mem_cons.mp hothers
    have heffect : Effect s a (p.act s a action) := act_effect hs action
    exact (heffect.sameAccount hs hother).trans (ih (heffect.consistent hs) hothers)

/-- No account sees anything of what others do in the portal: its list of nodes, the page of each, its surveys
and its export are what they would be without them. -/
theorem portal_isolated (p : Deployment) (internalKey : Option String) (rowsPerMin : ℚ) (before : List Op)
    (actions : List (Account × Action)) (a : Account) (hothers : ∀ x ∈ actions, x.1.ref ≠ a.ref) :
    let s := (App.start internalKey rowsPerMin).after p.rt before
    p.pages (p.acts s actions) a = p.pages s a := by
  intro s
  have hs : s.db.Consistent := after_consistent p.rt internalKey rowsPerMin before
  exact (acts_sameAccount hs hothers).pages

theorem portal_isolated_busyNeighbour :
    let s := (App.start (some "key") 6000).after .ascii aliceNode
    plainPortal.pages (plainPortal.acts s busyNeighbour) ⟨"alice", true⟩ = plainPortal.pages s ⟨"alice", true⟩ ∧
      (Dashboard.index plainPortal s ⟨"alice", true⟩).nodes.map (·.nodeId) = ["n0"] ∧
      (plainPortal.acts s busyNeighbour).db.nodes.keys.length = 2 :=
  ⟨portal_isolated plainPortal (some "key") 6000 aliceNode busyNeighbour ⟨"alice", true⟩ (by decide),
    by decide +kernel, by decide +kernel⟩

end GridWitness.Portal
