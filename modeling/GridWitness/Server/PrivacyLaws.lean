import Mathlib.Logic.Equiv.Basic
import GridWitness.Survey.MaskedDrain

namespace GridWitness.Server

open Library Survey

variable {rt : Runtime} {M : Masking}

/-- Two postcodes a request may carry in its place: equal ones, or non-empty ones of one area. -/
inductive Postcodes (rt : Runtime) : Option String → Option String → Prop
  | same : Postcodes rt p p
  | area (hp : p ≠ "") (hq : q ≠ "") (h : postcodeArea rt q = postcodeArea rt p) :
    Postcodes rt (some p) (some q)

theorem Postcodes.truthy {p q : Option String} (h : Postcodes rt p q) :
    Server.truthy q = Server.truthy p := by
  cases h with
  | same => rfl
  | area hp hq _ => simp [Server.truthy, hp, hq]

theorem Postcodes.checkLocation {p q : Option String} (h : Postcodes rt p q) (tier : LocTier)
    (region : Option String) : checkLocation tier region q = checkLocation tier region p := by
  rw [Server.checkLocation, Server.checkLocation, h.truthy]

/-- The resolved location does not depend on the postcode within its area, nor on the address. -/
theorem Postcodes.resolveLocation {p q : Option String} (h : Postcodes rt p q) (tier : LocTier)
    (region ip ip' : Option String) :
    (resolveLocation rt tier q region ip' none).locRef =
        (resolveLocation rt tier p region ip none).locRef ∧
      (resolveLocation rt tier q region ip' none).cellId =
        (resolveLocation rt tier p region ip none).cellId := by
  cases tier with
  | region => exact ⟨rfl, rfl⟩
  | dataShare =>
    refine ⟨?_, rfl⟩
    simp only [Server.resolveLocation, h.truthy]
    cases h with
    | same => rfl
    | area _ _ harea => simp only [Option.getD_some, harea]
  | anon => simp [Server.resolveLocation, regionFromIp]

theorem writer_similar {s s' : App} (h : App.Similar rt M s s') : s'.writer = s.writer := by
  rw [App.writer, h.site.tree, h.dedupe, App.writer]

def Presents (rt : Runtime) (authorization : Option String) (token : String) : Prop :=
  requireBearer rt authorization = .ok (rt.sha256 token)

theorem samples_similar {s s' : App} (h : App.Similar rt M s s') (c : SamplesCall)
    {authorization' : Option String} (hauth : Presents rt c.authorization (M.token c.body.nodeId))
    (hauth' : Presents rt authorization' (M.token' c.body.nodeId)) :
    App.Similar rt M (postSamples rt s c).1
      (postSamples rt s' { c with authorization := authorization' }).1 := by
  have hwriter : (⟨s'.tree, s'.dedupe⟩ : StagingWriter) = ⟨s.tree, s.dedupe⟩ := writer_similar h
  rw [Presents] at hauth hauth'
  simp only [postSamples, hauth, hauth', h.site.db.authenticateNode, h.limiter, hwriter]
  split
  · exact h
  · split
    · exact ⟨h.site, h.internalKey, h.dedupe, rfl⟩
    · split
      · exact ⟨⟨h.site.db, rfl, h.site.inbox, h.site.archive⟩, h.internalKey, rfl, rfl⟩
      · split
        · exact ⟨⟨h.site.db, rfl, h.site.inbox, h.site.archive⟩, h.internalKey, rfl, rfl⟩
        · exact ⟨⟨h.site.db, rfl, h.site.inbox, h.site.archive⟩, h.internalKey, rfl, rfl⟩

theorem App.Similar.withDb {s s' : App} (h : App.Similar rt M s s') {db db' : Database}
    (hdb : Database.Similar rt M db db') : App.Similar rt M { s with db } { s' with db := db' } :=
  ⟨⟨hdb, h.site.tree, h.site.inbox, h.site.archive⟩, h.internalKey, h.dedupe, h.limiter⟩

theorem register_similar {s s' : App} (h : App.Similar rt M s s') (body : RegisterRequest)
    {postcode' : Option String} (hp : Postcodes rt body.postcode postcode')
    (xGwInternal ip ip' : Option String) (id now : String) :
    App.Similar rt M (register rt s body xGwInternal ip ⟨id, M.token id, now⟩).1
      (register rt s'
        { body with postcode := postcode', contributorRef := body.contributorRef.map M.ref }
        xGwInternal ip' ⟨id, M.token' id, now⟩).1 := by
  obtain ⟨href, hcell⟩ := hp.resolveLocation body.locTier body.region ip ip'
  simp only [register, hp.checkLocation, h.internalKey, Option.isSome_map]
  split
  · exact h
  · split
    · exact h
    · refine ⟨⟨?_, h.site.tree, h.site.inbox, h.site.archive⟩, rfl, h.dedupe, h.limiter⟩
      apply (h.site.db.createNode _ _ _ _ _ _).1
      · rfl
      · simp only [Database.nodeRow, href, hcell]
      · rfl
      · rfl
      · rfl

theorem changeConsent_similar {s s' : App} (h : App.Similar rt M s s') (node : Node)
    (channels : Option (List Channel)) (tier : Option LocTier) (region : Option String)
    {p q : Option String} (hp : Postcodes rt p q) (ip ip' : Option String) :
    App.Similar rt M (changeConsent rt s node channels tier region p ip).1
      (changeConsent rt s' node channels tier region q ip').1 := by
  cases tier with
  | none => exact h.withDb (h.site.db.updateConsent node.nodeId channels .none)
  | some tier =>
    obtain ⟨href, hcell⟩ := hp.resolveLocation tier region ip ip'
    simp only [changeConsent, hp.checkLocation]
    split
    · exact h
    · exact h.withDb (h.site.db.updateConsent node.nodeId channels (.some ⟨rfl, href, hcell⟩))

theorem updateNode_similar {s s' : App} (h : App.Similar rt M s s') (body : ConsentUpdate)
    {postcode' : Option String} (hp : Postcodes rt body.postcode postcode')
    {authorization authorization' : Option String} (ip ip' : Option String)
    (hauth : Presents rt authorization (M.token body.nodeId))
    (hauth' : Presents rt authorization' (M.token' body.nodeId)) :
    App.Similar rt M (updateNode rt s authorization body ip).1
      (updateNode rt s' authorization' { body with postcode := postcode' } ip').1 := by
  rw [Presents] at hauth hauth'
  simp only [updateNode, hauth, hauth', h.site.db.authenticateNode]
  split
  · exact h
  · exact changeConsent_similar h _ _ _ _ hp _ _

theorem deleteNode_similar {s s' : App} (h : App.Similar rt M s s') (id now : String)
    {authorization authorization' : Option String}
    (hauth : Presents rt authorization (M.token id))
    (hauth' : Presents rt authorization' (M.token' id)) :
    App.Similar rt M (deleteNode rt s authorization id now).1
      (deleteNode rt s' authorization' id now).1 := by
  rw [Presents] at hauth hauth'
  simp only [deleteNode, hauth, hauth', h.site.db.authenticateNode]
  split
  · exact h
  · exact h.withDb (h.site.db.deleteNode now id).1

theorem adminUpdateNode_similar {s s' : App} (h : App.Similar rt M s s')
    (xGwInternal : Option String) (id contributorRef : String) (body : AdminConsentUpdate)
    {postcode' : Option String} (hp : Postcodes rt body.postcode postcode') :
    App.Similar rt M (Admin.updateNode rt s xGwInternal id contributorRef body).1
      (Admin.updateNode rt s' xGwInternal id (M.ref contributorRef)
        { body with postcode := postcode' }).1 := by
  simp only [Admin.updateNode, h.internalKey, h.site.db.ownedNode]
  split
  · exact h
  · split
    · exact h
    · exact changeConsent_similar h _ _ _ _ hp _ _

theorem adminDeleteNode_similar {s s' : App} (h : App.Similar rt M s s')
    (xGwInternal : Option String) (id contributorRef now : String) :
    App.Similar rt M (Admin.deleteNode s xGwInternal id contributorRef now).1
      (Admin.deleteNode s' xGwInternal id (M.ref contributorRef) now).1 := by
  obtain ⟨hdb, hdeleted⟩ := h.site.db.deleteNode now id
  simp only [Admin.deleteNode, h.internalKey, h.site.db.ownedNode, hdeleted]
  split
  · exact h
  · split
    · exact h
    · split
      · exact ⟨⟨hdb, h.site.tree, h.site.inbox.deleteRow id, h.site.archive.deleteRow id⟩,
          rfl, h.dedupe, h.limiter⟩
      · exact ⟨⟨hdb, h.site.tree, h.site.inbox, h.site.archive⟩, rfl, h.dedupe, h.limiter⟩

theorem stash_similar (rt : Runtime) (i : Nat) (files : List UploadFile) {f f' : Folder}
    (h : Folder.Similar M.ref f f') :
    Folder.Similar M.ref (stash rt i files f).1 (stash rt i files f').1 ∧
      (stash rt i files f').2 = (stash rt i files f).2 := by
  induction files generalizing i f f' with
  | nil => exact ⟨h, rfl⟩
  | cons file files ih =>
    have hraw : Folder.Similar M.ref
        (f.replaceRow (safeName rt file.filename i) (.raw file.content))
        (f'.replaceRow (safeName rt file.filename i) (.raw file.content)) := by
      apply h.replaceRow
      rw [Content.at]
      split <;> rfl
    obtain ⟨hfolder, hstored⟩ := ih (i + 1) hraw
    exact ⟨hfolder, by simp only [stash, hstored]⟩

theorem surveyUpload_similar {s s' : App} (h : App.Similar rt M s s')
    (xGwInternal : Option String) (form : SurveyForm) {postcode' : Option String}
    (hp : Postcodes rt form.postcode postcode') (id now uploadedUtc : String) :
    App.Similar rt M (surveyUpload rt s xGwInternal form ⟨id, M.token id, now⟩ uploadedUtc).1
      (surveyUpload rt s' xGwInternal
        { form with postcode := postcode', contributorRef := M.ref form.contributorRef }
        ⟨id, M.token' id, now⟩ uploadedUtc).1 := by
  simp only [surveyUpload, h.internalKey, hp.checkLocation]
  split
  · exact h
  · split
    · exact h
    · split
      · exact h
      · split
        · exact h
        · next tier _ =>
          split
          · exact h
          · split
            · exact h
            · obtain ⟨href, hcell⟩ := hp.resolveLocation tier form.region none none
              let form' : SurveyForm :=
                { form with postcode := postcode', contributorRef := M.ref form.contributorRef }
              let loc := resolveLocation rt tier form.postcode form.region none none
              let loc' := resolveLocation rt tier postcode' form.region none none
              let node := surveyNode rt form tier loc ⟨id, M.token id, now⟩
              let node' := surveyNode rt form' tier loc' ⟨id, M.token' id, now⟩
              have hrow : Database.nodeRow now node' = Database.nodeRow now node := by
                simp only [Database.nodeRow, node, node', surveyNode, loc, loc', href, hcell, form']
              have hcreate : Database.Similar rt M (s.db.createNode now node).1
                  (s'.db.createNode now node').1 ∧
                  (s'.db.createNode now node').2 = (s.db.createNode now node).2 :=
                h.site.db.createNode now rfl hrow rfl rfl rfl
              obtain ⟨hdb, hcreated⟩ := hcreate
              have hfolder : Folder.Similar M.ref ((s.surveys.inbox.lookup id).getD ∅)
                  ((s'.surveys.inbox.lookup id).getD ∅) := by
                rcases h.site.inbox.lookup id with ⟨hf, hf'⟩ | ⟨f, f', hf, hf', hff⟩
                · rw [hf, hf']
                  exact Table.Rel.empty
                · rw [hf, hf']
                  exact hff
              obtain ⟨hstash, hstored⟩ := stash_similar rt 0
                (form.files.filter fun f => fileExtension rt f ∈ allowedExtensions) hfolder
              simp only [node, node', form', loc, loc'] at hdb hcreated
              simp only [hcreated]
              split
              · exact ⟨⟨hdb, h.site.tree, h.site.inbox, h.site.archive⟩, rfl, h.dedupe, h.limiter⟩
              · refine ⟨⟨hdb, h.site.tree, ?_, h.site.archive⟩, rfl, h.dedupe, h.limiter⟩
                apply h.site.inbox.replaceRow
                apply hstash.replaceRow
                simp only [hstored, href]
                rfl

/-- Two requests alike but for postcodes within an area, tokens, accounts and addresses. -/
inductive Request.Masked (rt : Runtime) (M : Masking) : Request → Request → Prop
  | register (body : RegisterRequest) (hp : Postcodes rt body.postcode postcode') :
    Masked rt M (.register body key ip ⟨nodeId, M.token nodeId, now⟩)
      (.register
        { body with postcode := postcode', contributorRef := body.contributorRef.map M.ref }
        key ip' ⟨nodeId, M.token' nodeId, now⟩)
  | samples (c : SamplesCall) (hauth : Presents rt c.authorization (M.token c.body.nodeId))
      (hauth' : Presents rt authorization' (M.token' c.body.nodeId)) :
    Masked rt M (.samples c) (.samples { c with authorization := authorization' })
  | updateNode (body : ConsentUpdate) (hp : Postcodes rt body.postcode postcode')
      (hauth : Presents rt authorization (M.token body.nodeId))
      (hauth' : Presents rt authorization' (M.token' body.nodeId)) :
    Masked rt M (.updateNode authorization body ip)
      (.updateNode authorization' { body with postcode := postcode' } ip')
  | deleteNode (hauth : Presents rt authorization (M.token nodeId))
      (hauth' : Presents rt authorization' (M.token' nodeId)) :
    Masked rt M (.deleteNode authorization nodeId now) (.deleteNode authorization' nodeId now)
  | adminUpdateNode (body : AdminConsentUpdate) (hp : Postcodes rt body.postcode postcode') :
    Masked rt M (.adminUpdateNode key nodeId account body)
      (.adminUpdateNode key nodeId (M.ref account) { body with postcode := postcode' })
  | adminDeleteNode :
    Masked rt M (.adminDeleteNode key nodeId account now) (.adminDeleteNode key nodeId (M.ref account) now)
  | surveyUpload (form : SurveyForm) (hp : Postcodes rt form.postcode postcode') :
    Masked rt M (.surveyUpload key form ⟨nodeId, M.token nodeId, now⟩ uploadedUtc)
      (.surveyUpload key
        { form with postcode := postcode', contributorRef := M.ref form.contributorRef }
        ⟨nodeId, M.token' nodeId, now⟩ uploadedUtc)

inductive Op.Masked (rt : Runtime) (M : Masking) : Op → Op → Prop
  | request (h : Request.Masked rt M r r') : Masked rt M (.request r) (.request r')
  | drain : Masked rt M (.drain parseFile ticks) (.drain parseFile ticks)

theorem handle_similar {s s' : App} (h : App.Similar rt M s s') {r r' : Request}
    (hr : Request.Masked rt M r r') : App.Similar rt M (s.handle rt r) (s'.handle rt r') := by
  cases hr with
  | register body hp => exact register_similar h body hp _ _ _ _ _
  | samples c hauth hauth' => exact samples_similar h c hauth hauth'
  | updateNode body hp hauth hauth' => exact updateNode_similar h body hp _ _ hauth hauth'
  | deleteNode hauth hauth' => exact deleteNode_similar h _ _ hauth hauth'
  | adminUpdateNode body hp => exact adminUpdateNode_similar h _ _ _ body hp
  | adminDeleteNode => exact adminDeleteNode_similar h _ _ _ _
  | surveyUpload form hp => exact surveyUpload_similar h _ form hp _ _ _

theorem step_similar {s s' : App} (h : App.Similar rt M s s') {op op' : Op}
    (hop : Op.Masked rt M op op') : App.Similar rt M (s.step rt op) (s'.step rt op') := by
  cases hop with
  | request hr => exact handle_similar h hr
  | drain => exact ⟨drain_similar h.site _ _, h.internalKey, h.dedupe, h.limiter⟩

theorem start_similar (internalKey : Option String) (rowsPerMin : ℚ) :
    App.Similar rt M (App.start internalKey rowsPerMin) (App.start internalKey rowsPerMin) :=
  ⟨⟨⟨rfl, .empty, .empty⟩, rfl, .empty, .empty⟩, rfl, rfl, rfl⟩

/-- Staging does not depend on private data: two masked histories stage the same files. -/
theorem staging_private (rt : Runtime) (M : Masking) (internalKey : Option String)
    (rowsPerMin : ℚ) {ops ops' : List Op} (h : List.Forall₂ (Op.Masked rt M) ops ops') :
    ((App.start internalKey rowsPerMin).after rt ops').tree =
      ((App.start internalKey rowsPerMin).after rt ops).tree := by
  have hafter : ∀ {s s' : App}, App.Similar rt M s s' →
      App.Similar rt M (s.after rt ops) (s'.after rt ops') := by
    induction h with
    | nil => exact id
    | cons hop _ ih => exact fun hs => ih (step_similar hs hop)
  exact (hafter (start_similar internalKey rowsPerMin)).site.tree

/-- A shared node of an account sends one row; the private data of the history vary. -/
def sharedRun (postcode token account : String) : List Op :=
  [.request (.register
      { locTier := .dataShare, postcode := some postcode, contributorRef := some account }
      (some "key") none ⟨"n1", token, "2026-07-10T08:00:00Z"⟩),
   .request (.samples
      { authorization := some ("Bearer " ++ token)
        body :=
          { nodeId := "n1"
            electrical := [.mains "2026-07-10T09:00:00Z"] }
        monotonic := 0 })]

def sharedMasking : Masking where
  token _ := "secret"
  token' _ := "token"
  ref := Equiv.swap "alice" "bob"
  injective := (Equiv.swap "alice" "bob").injective

theorem staging_private_sharedRun :
    List.Forall₂ (Op.Masked .ascii sharedMasking) (sharedRun "BS1 4DJ" "secret" "alice")
        (sharedRun " bs16 1qy" "token" "bob") ∧
      ((App.start (some "key") 6000).after .ascii (sharedRun " bs16 1qy" "token" "bob")).tree =
        ((App.start (some "key") 6000).after .ascii (sharedRun "BS1 4DJ" "secret" "alice")).tree := by
  have hrun : List.Forall₂ (Op.Masked .ascii sharedMasking) (sharedRun "BS1 4DJ" "secret" "alice")
      (sharedRun " bs16 1qy" "token" "bob") := by
    have hp : Postcodes .ascii (some "BS1 4DJ") (some " bs16 1qy") :=
      .area (by decide) (by decide) (by decide +kernel)
    refine .cons (.request (.register _ hp)) (.cons (.request (.samples _ ?_ ?_)) .nil)
    · rfl
    · rfl
  exact ⟨hrun, staging_private .ascii sharedMasking (some "key") 6000 hrun⟩

end GridWitness.Server
