import GridWitness.Server.LocationLaws
import GridWitness.Server.Threads

namespace GridWitness.Server

open Library

namespace Route

variable {rt : Runtime} {s : App}

section Alone

theorem authenticateNode_alone (presented nodeId : String) (s : App) :
    (authenticateNode presented nodeId).run s = (s, Server.authenticateNode s.db presented nodeId) := by
  simp only [authenticateNode, getNode, getTokenHash, Server.authenticateNode, Prog.run_bind, Prog.run_ask]
  cases s.db.getNode nodeId with
  | none => rfl
  | some node =>
    simp only [Prog.run_bind, Prog.run_ask]
    split <;> rfl

theorem ownedNode_alone (nodeId contributorRef : String) (s : App) :
    (ownedNode nodeId contributorRef).run s = (s, Server.ownedNode s.db nodeId contributorRef) := by
  simp only [ownedNode, getNode, getContributorRef, Server.ownedNode, Prog.run_bind, Prog.run_ask]
  cases s.db.getNode nodeId with
  | none => rfl
  | some node =>
    simp only [Prog.run_bind, Prog.run_ask]
    split <;> rfl

theorem requireInternal_alone (xGwInternal : Option String) (s : App) :
    (requireInternal xGwInternal).run s = (s, Server.requireInternal s.internalKey xGwInternal) := by
  simp only [requireInternal, Prog.run_bind, Prog.run_ask, Prog.run_ofExcept]

theorem patch_alone (p : Patch) (s : App) :
    (patch rt p).run s =
      (s.consent (p.prepare rt s), (p.prepare rt s).map fun args => .located args.locRef) := by
  cases p with
  | byNode authorization body clientIp =>
    simp only [patch, Patch.prepare, updateConsent, Prog.run_bind, Prog.run_ofExcept, authenticateNode_alone]
    cases requireBearer rt authorization with
    | error e => rfl
    | ok presented =>
      dsimp only
      cases Server.authenticateNode s.db presented body.nodeId with
      | error e => rfl
      | ok node =>
        dsimp only
        cases consentArgs rt node body.channels body.locTier body.region body.postcode clientIp <;> rfl
  | byAccount xGwInternal nodeId contributorRef body =>
    simp only [patch, Patch.prepare, updateConsent, Prog.run_bind, Prog.run_ofExcept, requireInternal_alone,
      ownedNode_alone]
    cases Server.requireInternal s.internalKey xGwInternal with
    | error e => rfl
    | ok _ =>
      dsimp only
      cases Server.ownedNode s.db nodeId contributorRef with
      | error e => rfl
      | ok node =>
        dsimp only
        cases consentArgs rt node body.channels body.locTier body.region body.postcode none <;> rfl

theorem register_alone (body : RegisterRequest) (xGwInternal clientIp : Option String) (draw : Draw) (s : App) :
    (register rt body xGwInternal clientIp draw).run s =
      ((Server.register rt s body xGwInternal clientIp draw).1,
        (Server.register rt s body xGwInternal clientIp draw).2.map .registered) := by
  simp only [register, Server.register, createNode, Prog.run_bind, Prog.run_ofExcept]
  cases checkLocation body.locTier body.region body.postcode with
  | error e => rfl
  | ok _ =>
    dsimp only
    split
    · simp only [Prog.run_bind, requireInternal_alone]
      cases Server.requireInternal s.internalKey xGwInternal with
      | error e => rfl
      | ok _ =>
        simp only [Prog.run_call]
        split <;> rfl
    · simp only [Prog.run_bind, Prog.run_call]
      split <;> rfl

theorem write_alone (kind : Kind) (columns keyFields : List String) (tsField : String)
    (fault : Option AppendFault) (rows : List Row) (s : App) :
    let written := StagingWriter.write rt kind columns keyFields tsField fault ⟨s.tree, s.dedupe⟩ rows
    (write rt kind columns keyFields tsField fault rows).run s =
      ({ s with tree := written.1.tree, dedupe := written.1.dedupe },
        match written.2 with
        | some counts => .ok counts
        | none => .error .exception) := by
  simp only [write, StagingWriter.write, Prog.run_bind, Prog.run_call]
  split <;> simp_all

theorem postSamples_alone (c : SamplesCall) (s : App) :
    (postSamples rt c).run s =
      ((Server.postSamples rt s c).1, (Server.postSamples rt s c).2.map .samples) := by
  simp only [postSamples, Server.postSamples, Prog.run_bind, Prog.run_ofExcept, authenticateNode_alone]
  cases requireBearer rt c.authorization with
  | error e => rfl
  | ok presented =>
    dsimp only
    cases Server.authenticateNode s.db presented c.body.nodeId with
    | error e => rfl
    | ok node =>
      simp only [Prog.run_call]
      cases (s.limiter.allow c.monotonic c.body.nodeId
          (max (c.body.electrical.length + c.body.weather.length) 1)).2 with
      | false => rfl
      | true =>
        simp only [if_true, Bool.not_true, Bool.false_eq_true, if_false, Prog.run_bind, write_alone,
          StagingWriter.writeElectrical, StagingWriter.writeWeather]
        rcases StagingWriter.write rt .electrical _ _ _ _ _ _ with ⟨w, _ | ⟨eAcc, eDup⟩⟩
        · rfl
        · dsimp only
          rcases StagingWriter.write rt .weather _ _ _ _ _ _ with ⟨w', _ | ⟨wAcc, wDup⟩⟩ <;> rfl

theorem deleteByNode_alone (authorization : Option String) (nodeId now : String) (s : App) :
    (deleteByNode rt authorization nodeId now).run s =
      ((Server.deleteNode rt s authorization nodeId now).1,
        (Server.deleteNode rt s authorization nodeId now).2.map .deleted) := by
  simp only [deleteByNode, Server.deleteNode, deleteNode, Prog.run_bind, Prog.run_ofExcept,
    authenticateNode_alone]
  cases requireBearer rt authorization with
  | error e => rfl
  | ok presented =>
    dsimp only
    cases Server.authenticateNode s.db presented nodeId <;> rfl

theorem deleteByAccount_alone (xGwInternal : Option String) (nodeId contributorRef now : String) (s : App) :
    (deleteByAccount xGwInternal nodeId contributorRef now).run s =
      ((Admin.deleteNode s xGwInternal nodeId contributorRef now).1,
        (Admin.deleteNode s xGwInternal nodeId contributorRef now).2.map .deleted) := by
  simp only [deleteByAccount, Admin.deleteNode, deleteNode, Prog.run_bind, requireInternal_alone,
    ownedNode_alone]
  cases Server.requireInternal s.internalKey xGwInternal with
  | error e => rfl
  | ok _ =>
    dsimp only
    cases Server.ownedNode s.db nodeId contributorRef with
    | error e => rfl
    | ok node =>
      simp only [Prog.run_call]
      cases (s.db.deleteNode now nodeId).2 <;> rfl

theorem put_alone (nodeId name : String) (content : Content) {folder : Folder}
    (h : s.surveys.inbox.lookup nodeId = some folder) :
    (put nodeId name content).run s =
      ({ s with surveys := { s.surveys with
          inbox := s.surveys.inbox.replaceRow nodeId (folder.replaceRow name content) } }, .ok ()) := by
  simp only [put, Prog.run_bind, Prog.run_call, h]
  rfl

variable (rt) in
theorem stash_alone (s : App) (nodeId : String) (inbox : Table String Folder) (i : Nat) (files : List UploadFile)
    (folder : Folder) :
    (stash rt nodeId i files).run
        { s with surveys := { s.surveys with inbox := inbox.replaceRow nodeId folder } } =
      ({ s with surveys := { s.surveys with
          inbox := inbox.replaceRow nodeId (Server.stash rt i files folder).1 } },
        .ok (Server.stash rt i files folder).2) := by
  induction files generalizing i folder with
  | nil => rfl
  | cons f files ih =>
    let s' : App := { s with surveys := { s.surveys with inbox := inbox.replaceRow nodeId folder } }
    have hfolder : s'.surveys.inbox.lookup nodeId = some folder := by
      rw [Table.lookup_replaceRow, if_pos rfl]
    change (stash rt nodeId i (f :: files)).run s' = _
    rw [stash, Prog.run_bind, put_alone nodeId _ _ hfolder]
    simp only [s', Table.replaceRow_replaceRow, Prog.run_bind, ih, Server.stash]
    rfl

variable (rt) in
theorem files_alone (s : App) (nodeId : String) (files : List UploadFile) (manifest : List StoredFile → Content)
    (response : List StoredFile → Response) :
    let stashed := Server.stash rt 0 files ((s.surveys.inbox.lookup nodeId).getD ∅)
    let folder := stashed.1.replaceRow "manifest.json" (manifest stashed.2)
    (do makeInbox nodeId
        let stored ← stash rt nodeId 0 files
        put nodeId "manifest.json" (manifest stored)
        pure (response stored) : Route Response).run s =
      ({ s with surveys := { s.surveys with inbox := s.surveys.inbox.replaceRow nodeId folder } },
        .ok (response stashed.2)) := by
  intro stashed folder
  let s' : App := { s with surveys := { s.surveys with
    inbox := s.surveys.inbox.replaceRow nodeId stashed.1 } }
  have hfolder : s'.surveys.inbox.lookup nodeId = some stashed.1 := by
    rw [Table.lookup_replaceRow, if_pos rfl]
  have hput := put_alone nodeId "manifest.json" (manifest stashed.2) hfolder
  simp only [s', Table.replaceRow_replaceRow] at hput
  simp only [makeInbox, Prog.run_bind, Prog.run_call, stash_alone rt s]
  rw [hput]
  rfl

theorem surveyUpload_alone (xGwInternal : Option String) (form : SurveyForm) (draw : Draw) (uploadedUtc : String)
    (s : App) :
    (surveyUpload rt xGwInternal form draw uploadedUtc).run s =
      ((Server.surveyUpload rt s xGwInternal form draw uploadedUtc).1,
        (Server.surveyUpload rt s xGwInternal form draw uploadedUtc).2.map .uploaded) := by
  simp only [surveyUpload, Server.surveyUpload, Prog.run_bind, requireInternal_alone]
  cases Server.requireInternal s.internalKey xGwInternal with
  | error e => rfl
  | ok _ =>
    dsimp only
    split
    · rfl
    · split
      · rfl
      · cases surveyTier form.locTier with
        | none => rfl
        | some tier =>
          simp only [Prog.run_bind, Prog.run_ofExcept]
          cases checkLocation tier form.region form.postcode with
          | error e => rfl
          | ok _ =>
            dsimp only
            split
            · rfl
            · simp only [createNode, Prog.run_bind, Prog.run_call]
              by_cases hcreated : (s.db.createNode draw.now (surveyNode rt form tier
                  (resolveLocation rt tier form.postcode form.region none none) draw)).2 = true
              · simp only [hcreated, if_true, Bool.not_true, Bool.false_eq_true, if_false]
                exact files_alone rt _ draw.nodeId _
                  (fun stored => .manifest (surveyManifest rt form tier
                    (resolveLocation rt tier form.postcode form.region none none).locRef draw.nodeId uploadedUtc
                    stored)) _
              · simp only [hcreated, Bool.not_false, Bool.false_eq_true, if_true, if_false]
                rfl

/-- Run with no other in between, the accesses of a handler come to the handler in one step. -/
theorem route_alone (r : Request) (s : App) : (r.route rt).run s = (s.handle rt r, s.answer rt r) := by
  cases r with
  | register body xGwInternal clientIp draw => exact register_alone body xGwInternal clientIp draw s
  | samples c => exact postSamples_alone c s
  | updateNode authorization body clientIp =>
    obtain ⟨hstate, hanswer⟩ := handle_patch rt s (.byNode authorization body clientIp)
    refine (patch_alone (.byNode authorization body clientIp) s).trans ?_
    rw [← hstate, ← hanswer]
    rfl
  | deleteNode authorization nodeId now => exact deleteByNode_alone authorization nodeId now s
  | adminUpdateNode xGwInternal nodeId contributorRef body =>
    obtain ⟨hstate, hanswer⟩ := handle_patch rt s (.byAccount xGwInternal nodeId contributorRef body)
    refine (patch_alone (.byAccount xGwInternal nodeId contributorRef body) s).trans ?_
    rw [← hstate, ← hanswer]
    rfl
  | adminDeleteNode xGwInternal nodeId contributorRef now =>
    exact deleteByAccount_alone xGwInternal nodeId contributorRef now s
  | surveyUpload xGwInternal form draw uploadedUtc => exact surveyUpload_alone xGwInternal form draw uploadedUtc s

end Alone

end Route

end GridWitness.Server
