import GridWitness.Server.DatabaseLaws
import GridWitness.Server.Handlers
import GridWitness.Server.RoutesLaws

namespace GridWitness.Server

open Library

/-- A checked location keeps a postcode exactly in the tier that shares it. -/
theorem resolveLocation_postcode {rt : Runtime} {tier : LocTier} {region postcode : Option String}
    (h : checkLocation tier region postcode = .ok ()) (clientIp : Option String) :
    (resolveLocation rt tier postcode region clientIp none).storedPostcode.isSome ↔
      tier = .dataShare := by
  cases tier with
  | anon => simp [resolveLocation]
  | region => simp [resolveLocation]
  | dataShare =>
    cases postcode with
    | none => simp [checkLocation, truthy] at h
    | some postcode => simp [resolveLocation]

/-- What a request that creates a node provides for it, checks included. -/
structure Request.Creates (rt : Runtime) (s : App) (r : Request) (draw : Draw) (n : NewNode)
    (loc : Location) (surveys : Surveys) : Prop where
  draws : r.draw = some draw
  nodeId : n.nodeId = draw.nodeId
  token : n.tokenSha256 = rt.sha256 draw.token
  location : r.location rt = some (n.nodeId, n.locTier, loc)
  resolved : n.locRef = loc.locRef ∧ n.cellId = loc.cellId ∧ n.postcode = loc.storedPostcode
  kept : loc.storedPostcode.isSome ↔ n.locTier = .dataShare
  owner : n.contributorRef.isSome → requireInternal s.internalKey r.credential = .ok ()
  inbox : ∀ id, id ≠ n.nodeId → surveys.inbox.lookup id = s.surveys.inbox.lookup id
  archive : surveys.archive = s.surveys.archive

/-- On whose authority a request acts on an existing node. -/
inductive Request.Authority (rt : Runtime) (s : App) (r : Request) (id : String) : Prop
  | token (authorization : Option String) (presented : String)
      (names : r.bearer = some (authorization, id))
      (shows : requireBearer rt authorization = .ok presented)
      (stored : s.db.getTokenHash id = some presented)
  | account (contributorRef : String) (names : r.admin = some (id, contributorRef))
      (credential : requireInternal s.internalKey r.credential = .ok ())
      (owns : s.db.getContributorRef id = some contributorRef)

theorem authenticateNode_token {db : Database} {presented id : String} {node : Node}
    (h : authenticateNode db presented id = .ok node) : db.getTokenHash id = some presented := by
  simp only [authenticateNode] at h
  split at h
  · cases h
  · split at h
    · next htoken => exact htoken
    · cases h

theorem ownedNode_owner {db : Database} {id contributorRef : String} {node : Node}
    (h : ownedNode db id contributorRef = .ok node) :
    db.getContributorRef id = some contributorRef := by
  simp only [ownedNode] at h
  split at h
  · cases h
  · split at h
    · next howner => exact howner
    · cases h

/-- A call of `update_consent` that does what its `PATCH` asks for. -/
structure Patch.Resolved (rt : Runtime) (p : Patch) (args : ConsentArgs) : Prop where
  nodeId : args.nodeId = p.nodeId
  channels : args.channels = p.channels
  locTier : args.locTier = p.locTier
  location : args.location = (p.request.location rt).map fun l => l.2.2.stored l.2.1
  kept : ∀ id tier loc, p.request.location rt = some (id, tier, loc) →
    id = p.nodeId ∧ (loc.storedPostcode.isSome ↔ tier = .dataShare)

/-- The same of a call prepared in the present state, on due authority. -/
structure Patch.Prepared (rt : Runtime) (s : App) (p : Patch) (args : ConsentArgs) : Prop
    extends p.Resolved rt args where
  live : (s.db.getNode p.nodeId).isSome
  authority : p.request.Authority rt s p.nodeId

theorem consentArgs_ok {rt : Runtime} {node : Node} {channels : Option (List Channel)}
    {locTier : Option LocTier} {region postcode clientIp : Option String} {args : ConsentArgs}
    (h : consentArgs rt node channels locTier region postcode clientIp = .ok args) :
    args.nodeId = node.nodeId ∧ args.channels = channels ∧ args.locTier = locTier ∧
      args.location = (locTier.map fun tier =>
        (resolveLocation rt tier postcode region clientIp none).stored tier) ∧
      ∀ tier ∈ locTier, checkLocation tier region postcode = .ok () := by
  cases locTier with
  | none =>
    cases h
    exact ⟨rfl, rfl, rfl, rfl, by simp⟩
  | some tier =>
    simp only [consentArgs] at h
    split at h
    · cases h
    · next hcheck =>
      cases h
      exact ⟨rfl, rfl, rfl, rfl, by simpa using hcheck⟩

theorem Patch.prepare_ok {rt : Runtime} {s : App} {p : Patch} {args : ConsentArgs}
    (h : p.prepare rt s = .ok args) : p.Prepared rt s args := by
  cases p with
  | byNode authorization body clientIp =>
    simp only [prepare] at h
    split at h
    · cases h
    · next presented hpresented =>
      split at h
      · cases h
      · next node hnode =>
        obtain ⟨hid, hchannels, htier, hloc, hcheck⟩ := consentArgs_ok h
        have hlive := authenticateNode_ok hnode
        refine ⟨⟨hid.trans (Database.getNode_nodeId hlive), hchannels, htier, ?_, ?_⟩,
          by rw [nodeId, hlive]; rfl,
          .token _ presented rfl hpresented (authenticateNode_token hnode)⟩
        · rw [hloc, request, Request.location, Option.map_map]
          rfl
        · intro id tier loc heq
          obtain ⟨t, ht, htuple⟩ := Option.map_eq_some_iff.mp heq
          cases htuple
          exact ⟨rfl, resolveLocation_postcode (hcheck _ ht) clientIp⟩
  | byAccount xGwInternal nodeId contributorRef body =>
    simp only [prepare] at h
    split at h
    · cases h
    · next hcredential =>
      split at h
      · cases h
      · next node hnode =>
        obtain ⟨hid, hchannels, htier, hloc, hcheck⟩ := consentArgs_ok h
        have hlive := ownedNode_ok hnode
        refine ⟨⟨hid.trans (Database.getNode_nodeId hlive), hchannels, htier, ?_, ?_⟩,
          by rw [Patch.nodeId, hlive]; rfl,
          .account _ rfl hcredential (ownedNode_owner hnode)⟩
        · rw [hloc, request, Request.location, Option.map_map]
          rfl
        · intro id tier loc heq
          obtain ⟨t, ht, htuple⟩ := Option.map_eq_some_iff.mp heq
          cases htuple
          exact ⟨rfl, resolveLocation_postcode (hcheck _ ht) none⟩

/-- How a request other than a samples request ends: what it changes, on whose authority, and how
it is answered. -/
inductive Request.Outcome (rt : Runtime) (s : App) (r : Request) : App → Except Failure Response → Prop
  | refuse (e : Failure) : Outcome rt s r s (.error e)
  | create (draw : Draw) (n : NewNode) (loc : Location) (surveys : Surveys)
      (creates : r.Creates rt s draw n loc surveys)
      (created : (s.db.createNode draw.now n).2 = true) (response : Response) :
    Outcome rt s r { s with db := (s.db.createNode draw.now n).1, surveys } (.ok response)
  | collide (now : String) (n : NewNode) (refused : (s.db.createNode now n).2 = false) :
    Outcome rt s r { s with db := (s.db.createNode now n).1 } (.error .exception)
  | consent (p : Patch) (args : ConsentArgs) (asked : r = p.request)
      (prepared : p.Prepared rt s args) :
    Outcome rt s r { s with db := args.call s.db } (.ok (.located args.locRef))
  | delete (now id : String) (surveys : Surveys) (authority : r.Authority rt s id)
      (live : (s.db.getNode id).isSome) (unlocated : r.location rt = none)
      (inbox : ∀ j, j ≠ id → surveys.inbox.lookup j = s.surveys.inbox.lookup j)
      (archive : ∀ j, j ≠ id → surveys.archive.lookup j = s.surveys.archive.lookup j)
      (bearer : r.admin = none → surveys = s.surveys) (deleted : Bool) :
    Outcome rt s r { s with db := (s.db.deleteNode now id).1, surveys } (.ok (.deleted deleted))

theorem changeConsent_eq (rt : Runtime) (s : App) (node : Node)
    (channels : Option (List Channel)) (locTier : Option LocTier)
    (region postcode clientIp : Option String) :
    (changeConsent rt s node channels locTier region postcode clientIp).1 =
        s.consent (consentArgs rt node channels locTier region postcode clientIp) ∧
      (changeConsent rt s node channels locTier region postcode clientIp).2.map Response.located =
        (consentArgs rt node channels locTier region postcode clientIp).map fun args =>
          Response.located args.locRef := by
  cases locTier with
  | none => exact ⟨rfl, rfl⟩
  | some tier =>
    simp only [changeConsent, consentArgs]
    cases checkLocation tier region postcode <;> exact ⟨rfl, rfl⟩

/-- Run without interruption, the two halves of a `PATCH` handler are the whole of it. -/
theorem handle_patch (rt : Runtime) (s : App) (p : Patch) :
    s.handle rt p.request = s.consent (p.prepare rt s) ∧
      s.answer rt p.request = (p.prepare rt s).map fun args => .located args.locRef := by
  cases p with
  | byNode authorization body clientIp =>
    simp only [Patch.request, App.handle, App.answer, updateNode, Patch.prepare]
    cases requireBearer rt authorization with
    | error e => exact ⟨rfl, rfl⟩
    | ok presented =>
      dsimp only
      cases authenticateNode s.db presented body.nodeId with
      | error e => exact ⟨rfl, rfl⟩
      | ok node => exact changeConsent_eq rt s node _ _ _ _ _
  | byAccount xGwInternal nodeId contributorRef body =>
    simp only [Patch.request, App.handle, App.answer, Admin.updateNode, Patch.prepare]
    cases requireInternal s.internalKey xGwInternal with
    | error e => exact ⟨rfl, rfl⟩
    | ok _ =>
      dsimp only
      cases ownedNode s.db nodeId contributorRef with
      | error e => exact ⟨rfl, rfl⟩
      | ok node => exact changeConsent_eq rt s node _ _ _ _ _

theorem patch_outcome (rt : Runtime) (s : App) (p : Patch) :
    p.request.Outcome rt s (s.handle rt p.request) (s.answer rt p.request) := by
  obtain ⟨hstate, hanswer⟩ := handle_patch rt s p
  rw [hstate, hanswer]
  cases hprep : p.prepare rt s with
  | error e => exact .refuse e
  | ok args => exact .consent p args rfl (Patch.prepare_ok hprep)

theorem register_outcome (rt : Runtime) (s : App) (body : RegisterRequest)
    (xGwInternal clientIp : Option String) (draw : Draw) :
    let r := Request.register body xGwInternal clientIp draw
    r.Outcome rt s (s.handle rt r) (s.answer rt r) := by
  intro r
  simp only [r, App.handle, App.answer, register]
  cases hcheck : checkLocation body.locTier body.region body.postcode with
  | error e => exact .refuse e
  | ok _ =>
    dsimp only
    cases howner : (if body.contributorRef.isSome then requireInternal s.internalKey xGwInternal
        else .ok ()) with
    | error e => exact .refuse e
    | ok _ =>
      dsimp only
      generalize hn : NewNode.mk _ _ _ _ _ _ _ _ _ _ _ _ _ = n
      cases hcreated : (s.db.createNode draw.now n).2 with
      | false => exact .collide draw.now n hcreated
      | true =>
        refine .create draw n
          (resolveLocation rt body.locTier body.postcode body.region clientIp none) s.surveys ?_
          hcreated _
        subst hn
        exact
          { draws := rfl
            nodeId := rfl
            token := rfl
            location := rfl
            resolved := ⟨rfl, rfl, rfl⟩
            kept := resolveLocation_postcode hcheck clientIp
            owner := fun h => by rwa [if_pos h] at howner
            inbox := fun _ _ => rfl
            archive := rfl }

/-- What is stored does not depend on what the folder held. -/
theorem stash_stored (rt : Runtime) (i : Nat) (files : List UploadFile) (folder : Folder) :
    (stash rt i files folder).2 = (stash rt i files ∅).2 := by
  induction files generalizing i folder with
  | nil => rfl
  | cons f files ih =>
    simp only [stash]
    rw [ih, ih (i + 1) (Table.replaceRow ∅ _ _)]

/-- What a survey upload can do: refuse, meet a node of its id, or store the files it accepts. -/
inductive Uploaded (rt : Runtime) (s : App) (xGwInternal : Option String) (form : SurveyForm)
    (draw : Draw) (uploadedUtc : String) : App × Except Failure SurveyUploadResponse → Prop
  | refuse (e : Failure) : Uploaded rt s xGwInternal form draw uploadedUtc (s, .error e)
  | collide (n : NewNode) (refused : (s.db.createNode draw.now n).2 = false) :
    Uploaded rt s xGwInternal form draw uploadedUtc
      ({ s with db := (s.db.createNode draw.now n).1 }, .error .exception)
  | store (tier : LocTier) (loc : Location) (n : NewNode) (files : List UploadFile)
      (folder : Folder × List StoredFile) (response : SurveyUploadResponse)
      (credential : requireInternal s.internalKey xGwInternal = .ok ())
      (tiered : surveyTier form.locTier = some tier)
      (checked : checkLocation tier form.region form.postcode = .ok ())
      (resolved : loc = resolveLocation rt tier form.postcode form.region none none)
      (node : n = surveyNode rt form tier loc draw) (few : files.length ≤ maxFiles)
      (created : (s.db.createNode draw.now n).2 = true)
      (stashed : folder = stash rt 0 files ((s.surveys.inbox.lookup draw.nodeId).getD ∅)) :
    Uploaded rt s xGwInternal form draw uploadedUtc
      ({ s with
          db := (s.db.createNode draw.now n).1
          surveys :=
            { s.surveys with
              inbox := s.surveys.inbox.replaceRow draw.nodeId
                (folder.1.replaceRow "manifest.json" (.manifest
                  (surveyManifest rt form tier loc.locRef draw.nodeId uploadedUtc folder.2))) } },
        .ok response)

theorem surveyUpload_uploaded (rt : Runtime) (s : App) (xGwInternal : Option String)
    (form : SurveyForm) (draw : Draw) (uploadedUtc : String) :
    Uploaded rt s xGwInternal form draw uploadedUtc
      (surveyUpload rt s xGwInternal form draw uploadedUtc) := by
  simp only [surveyUpload]
  cases hcredential : requireInternal s.internalKey xGwInternal with
  | error e => exact .refuse e
  | ok _ =>
    dsimp only
    split
    · exact .refuse _
    · split
      · exact .refuse _
      · next hmany =>
        cases htier : surveyTier form.locTier with
        | none => exact .refuse _
        | some tier =>
          dsimp only
          cases hcheck : checkLocation tier form.region form.postcode with
          | error e => exact .refuse e
          | ok _ =>
            dsimp only
            split
            · exact .refuse _
            · cases hcreated : (s.db.createNode draw.now (surveyNode rt form tier
                (resolveLocation rt tier form.postcode form.region none none) draw)).2 with
              | false => exact .collide _ hcreated
              | true =>
                have hfew := (List.length_filter_le
                  (fun f => decide (fileExtension rt f ∈ allowedExtensions)) form.files).trans
                    (Nat.le_of_not_lt hmany)
                exact .store tier _ _ _ _ _ hcredential htier hcheck rfl rfl hfew hcreated rfl

theorem surveyUpload_outcome (rt : Runtime) (s : App) (xGwInternal : Option String)
    (form : SurveyForm) (draw : Draw) (uploadedUtc : String) :
    let r := Request.surveyUpload xGwInternal form draw uploadedUtc
    r.Outcome rt s (s.handle rt r) (s.answer rt r) := by
  intro r
  have huploaded := surveyUpload_uploaded rt s xGwInternal form draw uploadedUtc
  simp only [r, App.handle, App.answer]
  generalize surveyUpload rt s xGwInternal form draw uploadedUtc = after at huploaded ⊢
  cases huploaded with
  | refuse e => exact .refuse e
  | collide n refused => exact .collide draw.now n refused
  | store tier loc n files folder response credential tiered checked resolved node few created =>
    subst resolved node
    refine .create draw _ (resolveLocation rt tier form.postcode form.region none none) _ ?_ created _
    exact
      { draws := rfl
        nodeId := rfl
        token := rfl
        location := by rw [Request.location, tiered]; rfl
        resolved := ⟨rfl, rfl, rfl⟩
        kept := resolveLocation_postcode checked none
        owner := fun _ => credential
        inbox := fun id hid => by
          rw [Table.lookup_replaceRow]
          exact if_neg hid
        archive := rfl }

theorem deleteNode_outcome (rt : Runtime) (s : App) (authorization : Option String)
    (nodeId now : String) :
    let r := Request.deleteNode authorization nodeId now
    r.Outcome rt s (s.handle rt r) (s.answer rt r) := by
  intro r
  simp only [r, App.handle, App.answer, deleteNode]
  cases hpresented : requireBearer rt authorization with
  | error e => exact .refuse e
  | ok presented =>
    dsimp only
    cases hnode : authenticateNode s.db presented nodeId with
    | error e => exact .refuse e
    | ok node =>
      have hauthority := Request.Authority.token (r := .deleteNode authorization nodeId now)
        authorization presented rfl hpresented (authenticateNode_token hnode)
      exact .delete now nodeId s.surveys hauthority (by rw [authenticateNode_ok hnode]; rfl) rfl
        (fun _ _ => rfl) (fun _ _ => rfl) (fun _ => rfl) _

theorem adminDeleteNode_outcome (rt : Runtime) (s : App) (xGwInternal : Option String)
    (nodeId contributorRef now : String) :
    let r := Request.adminDeleteNode xGwInternal nodeId contributorRef now
    r.Outcome rt s (s.handle rt r) (s.answer rt r) := by
  intro r
  simp only [r, App.handle, App.answer, Admin.deleteNode]
  cases hcredential : requireInternal s.internalKey xGwInternal with
  | error e => exact .refuse e
  | ok _ =>
    dsimp only
    cases hnode : ownedNode s.db nodeId contributorRef with
    | error e => exact .refuse e
    | ok node =>
      have hauthority : (Request.adminDeleteNode xGwInternal nodeId contributorRef now).Authority rt s
          nodeId := .account contributorRef rfl hcredential (ownedNode_owner hnode)
      have hlive : (s.db.getNode nodeId).isSome := by rw [ownedNode_ok hnode]; rfl
      dsimp only
      split
      · refine .delete now nodeId _ hauthority hlive rfl ?_ ?_ (fun h => absurd h (Option.some_ne_none _)) _
        · intro j hj
          rw [Table.lookup_deleteRow, if_neg hj]
        · intro j hj
          rw [Table.lookup_deleteRow, if_neg hj]
      · exact .delete now nodeId s.surveys hauthority hlive rfl (fun _ _ => rfl)
          (fun _ _ => rfl) (fun h => absurd h (Option.some_ne_none _)) _

theorem handle_outcome (rt : Runtime) (s : App) (r : Request) (h : ∀ c, r ≠ .samples c) :
    r.Outcome rt s (s.handle rt r) (s.answer rt r) := by
  cases r with
  | register body xGwInternal clientIp draw =>
    exact register_outcome rt s body xGwInternal clientIp draw
  | samples c => exact absurd rfl (h c)
  | updateNode authorization body clientIp =>
    exact patch_outcome rt s (.byNode authorization body clientIp)
  | deleteNode authorization nodeId now => exact deleteNode_outcome rt s authorization nodeId now
  | adminUpdateNode xGwInternal nodeId contributorRef body =>
    exact patch_outcome rt s (.byAccount xGwInternal nodeId contributorRef body)
  | adminDeleteNode xGwInternal nodeId contributorRef now =>
    exact adminDeleteNode_outcome rt s xGwInternal nodeId contributorRef now
  | surveyUpload xGwInternal form draw uploadedUtc =>
    exact surveyUpload_outcome rt s xGwInternal form draw uploadedUtc

end GridWitness.Server
