import Mathlib.Data.List.Induction
import Mathlib.Data.List.Pairwise
import Mathlib.Logic.Equiv.Basic
import GridWitness.Server.Account
import GridWitness.Server.HistoryLaws

namespace GridWitness.Server

open Library Survey

/-- The token a bearer request shows. -/
def presentedToken (rt : Runtime) (authorization : Option String) : Option String :=
  authorization.map fun header =>
    rt.strip (String.ofList ((header.toList.dropWhile (· ≠ ' ')).drop 1))

theorem requireBearer_ok {rt : Runtime} {authorization : Option String} {presented : String}
    (h : requireBearer rt authorization = .ok presented) :
    ∃ token, presentedToken rt authorization = some token ∧ presented = rt.sha256 token := by
  cases authorization with
  | none => cases h
  | some header =>
    simp only [requireBearer] at h
    split at h
    · cases h
      exact ⟨_, rfl, rfl⟩
    · cases h

/-- Two states of the server agree on all that belongs to a node: its rows, its rate bucket and
its survey folders. -/
structure SameNode (s s' : App) (id : String) : Prop where
  row : s'.db.nodes.lookup id = s.db.nodes.lookup id
  token : s'.db.tokens.lookup id = s.db.tokens.lookup id
  priv : s'.db.nodePrivate.lookup id = s.db.nodePrivate.lookup id
  tombstone : s'.db.tombstones.lookup id = s.db.tombstones.lookup id
  bucket : s'.limiter.buckets.lookup id = s.limiter.buckets.lookup id
  inbox : s'.surveys.inbox.lookup id = s.surveys.inbox.lookup id
  archive : s'.surveys.archive.lookup id = s.surveys.archive.lookup id

theorem SameNode.refl (s : App) (id : String) : SameNode s s id := by
  constructor <;> rfl

theorem SameNode.trans {s s' s'' : App} {id : String} (h : SameNode s s' id) (h' : SameNode s' s'' id) :
    SameNode s s'' id where
  row := h'.row.trans h.row
  token := h'.token.trans h.token
  priv := h'.priv.trans h.priv
  tombstone := h'.tombstone.trans h.tombstone
  bucket := h'.bucket.trans h.bucket
  inbox := h'.inbox.trans h.inbox
  archive := h'.archive.trans h.archive

theorem SameNode.getNode {s s' : App} {id : String} (h : SameNode s s' id) : s'.db.getNode id = s.db.getNode id := by
  rw [Database.getNode, Database.getNode, h.row]

theorem SameNode.getContributorRef {s s' : App} {id : String} (h : SameNode s s' id) :
    s'.db.getContributorRef id = s.db.getContributorRef id := by
  rw [Database.getContributorRef, Database.getContributorRef, h.priv]

theorem SameNode.surveyFiles {s s' : App} {id : String} (h : SameNode s s' id) :
    surveyFiles s'.surveys id = surveyFiles s.surveys id := by
  simp only [Server.surveyFiles, areaFiles, h.inbox, h.archive]

theorem RateLimiter.allow_bucket (l : RateLimiter) (now : ℚ) (nodeId : String) (rows : Nat)
    {id : String} (h : id ≠ nodeId) :
    (l.allow now nodeId rows).1.buckets.lookup id = l.buckets.lookup id := by
  simp only [RateLimiter.allow]
  split <;> rw [Table.lookup_replaceRow, if_neg h]

/-- How a samples request ends: refused with nothing changed, refused later with another status,
or accepted on the token of the node it names. -/
theorem postSamples_answer (rt : Runtime) (s : App) (c : SamplesCall) :
    (∃ e, postSamples rt s c = (s, .error e)) ∨
    (s.db.getNode c.body.nodeId).isSome ∧
      Request.Authority rt s (.samples c) c.body.nodeId ∧
      (∀ id, id ≠ c.body.nodeId →
        (postSamples rt s c).1.limiter.buckets.lookup id = s.limiter.buckets.lookup id) ∧
      ∀ e, (postSamples rt s c).2 = .error e →
        e = .http 429 "rate limit exceeded" ∨ e = .exception := by
  cases hpresented : requireBearer rt c.authorization with
  | error e => exact Or.inl ⟨e, by simp only [postSamples, hpresented]⟩
  | ok presented =>
    cases hnode : authenticateNode s.db presented c.body.nodeId with
    | error e => exact Or.inl ⟨e, by simp only [postSamples, hpresented, hnode]⟩
    | ok node =>
      refine Or.inr ⟨by rw [authenticateNode_ok hnode]; rfl,
        .token _ presented rfl hpresented (authenticateNode_token hnode), ?_, ?_⟩
      · intro id hid
        have hbucket := s.limiter.allow_bucket c.monotonic c.body.nodeId
          (max (c.body.electrical.length + c.body.weather.length) 1) hid
        simp only [postSamples, hpresented, hnode]
        split
        · exact hbucket
        · split
          · exact hbucket
          · split <;> exact hbucket
      · intro e
        simp only [postSamples, hpresented, hnode]
        split
        · intro h
          cases h
          exact Or.inl rfl
        · split
          · intro h
            cases h
            exact Or.inr rfl
          · split
            · intro h
              cases h
              exact Or.inr rfl
            · intro h
              cases h

/-- A request acts on one node, and on an existing one only by its authority. -/
theorem handle_sameNode {rt : Runtime} {s : App} (hs : s.db.Consistent) {r : Request} {id : String}
    (h : ¬ SameNode s (s.handle rt r) id) :
    (s.db.getNode id).isSome ∧ r.Authority rt s id ∨
      ∃ draw, r.draw = some draw ∧ draw.nodeId = id := by
  by_cases hsamples : ∃ c, r = .samples c
  · obtain ⟨c, rfl⟩ := hsamples
    left
    rcases postSamples_answer rt s c with ⟨e, heq⟩ | ⟨hlive, hauthority, hbucket, -⟩
    · rw [App.handle, heq] at h
      exact absurd (SameNode.refl s id) h
    · by_cases hid : id = c.body.nodeId
      · rw [hid]
        exact ⟨hlive, hauthority⟩
      · obtain ⟨hdb, hsurveys, -⟩ := postSamples_frame rt s c
        refine absurd ?_ h
        constructor <;> first | exact hbucket id hid | simp only [App.handle, hdb, hsurveys]
  · have houtcome := handle_outcome rt s r (not_exists.mp hsamples)
    generalize s.handle rt r = s', s.answer rt r = answer at houtcome h
    cases houtcome with
    | refuse e => exact absurd (SameNode.refl s id) h
    | create draw n loc surveys creates created =>
      by_cases hid : id = n.nodeId
      · exact Or.inr ⟨draw, creates.draws, by rw [hid, creates.nodeId]⟩
      · obtain ⟨db', heq, -, hnodes, htokens, hpriv, htomb⟩ := hs.created created
        refine absurd ?_ h
        rw [heq]
        exact
          { row := by rw [hnodes, if_neg hid]
            token := by rw [htokens, if_neg hid]
            priv := by rw [hpriv, if_neg hid]
            tombstone := by rw [htomb]
            bucket := rfl
            inbox := creates.inbox id hid
            archive := by rw [creates.archive] }
    | collide now n refused =>
      rw [hs.collide refused] at h
      exact absurd (SameNode.refl s id) h
    | consent p args asked prepared =>
      by_cases hid : id = p.nodeId
      · rw [hid, asked]
        exact Or.inl ⟨prepared.live, prepared.authority⟩
      · rw [← prepared.nodeId] at hid
        refine absurd ?_ h
        exact
          { row := by rw [ConsentArgs.call, Database.lookup_updateConsent, if_neg hid]
            token := by rw [ConsentArgs.call, Database.tokens_updateConsent]
            priv := by rw [ConsentArgs.call, Database.nodePrivate_updateConsent, if_neg hid]
            tombstone := by rw [ConsentArgs.call, Database.tombstones_updateConsent]
            bucket := rfl
            inbox := rfl
            archive := rfl }
    | delete now j surveys authority live unlocated inbox archive =>
      by_cases hid : id = j
      · rw [hid]
        exact Or.inl ⟨live, authority⟩
      · refine absurd ?_ h
        rcases Database.deleteNode_cases s.db now j with ⟨heq, -⟩ | ⟨heq, -⟩
        · rw [heq]
          exact ⟨rfl, rfl, rfl, rfl, rfl, inbox id hid, archive id hid⟩
        · rw [heq]
          exact
            { row := by simp only [Database.erase, Table.lookup_updateRow, if_neg hid]
              token := by simp only [Database.erase, Table.lookup_deleteRow, if_neg hid]
              priv := by simp only [Database.erase, Table.lookup_deleteRow, if_neg hid]
              tombstone := by simp only [Database.erase, Table.lookup_replaceRow, if_neg hid]
              bucket := rfl
              inbox := inbox id hid
              archive := archive id hid }

theorem Request.bearer_admin {r : Request} {named : Option String × String}
    (h : r.bearer = some named) : r.admin = none ∧ r.draw = none := by
  cases r <;> first | exact ⟨rfl, rfl⟩ | cases h

theorem Request.admin_bearer {r : Request} {named : String × String}
    (h : r.admin = some named) : r.bearer = none ∧ r.draw = none := by
  cases r <;> first | exact ⟨rfl, rfl⟩ | cases h

/-- A bearer request acts by the token of the live node it names. -/
theorem Request.Authority.bearer {rt : Runtime} {s : App} {r : Request} {id j : String}
    (h : r.Authority rt s j) {authorization : Option String}
    (hr : r.bearer = some (authorization, id)) :
    j = id ∧ ∃ token, presentedToken rt authorization = some token ∧
      s.db.getTokenHash id = some (rt.sha256 token) := by
  cases h with
  | token authorization' presented names shows stored =>
    rw [hr] at names
    cases names
    obtain ⟨token, htoken, rfl⟩ := requireBearer_ok shows
    exact ⟨rfl, token, htoken, stored⟩
  | account contributorRef names credential owns =>
    rw [(Request.bearer_admin hr).1] at names
    cases names

theorem Request.Authority.admin {rt : Runtime} {s : App} {r : Request} {id j c : String}
    (h : r.Authority rt s j) (hr : r.admin = some (id, c)) :
    j = id ∧ s.db.getContributorRef id = some c := by
  cases h with
  | token authorization presented names shows stored =>
    rw [(Request.admin_bearer hr).1] at names
    cases names
  | account contributorRef names credential owns =>
    rw [hr] at names
    cases names
    exact ⟨rfl, owns⟩

/-- A bearer request that succeeds does so on the authority of the node it names. -/
theorem answer_bearer {rt : Runtime} {s : App} {r : Request} {authorization : Option String}
    {id : String} (hr : r.bearer = some (authorization, id)) (h : (s.answer rt r).isOk) :
    (s.db.getNode id).isSome ∧ ∃ token, presentedToken rt authorization = some token ∧
      s.db.getTokenHash id = some (rt.sha256 token) := by
  suffices ∃ j, (s.db.getNode j).isSome ∧ r.Authority rt s j by
    obtain ⟨j, hlive, hauthority⟩ := this
    obtain ⟨rfl, htoken⟩ := hauthority.bearer hr
    exact ⟨hlive, htoken⟩
  by_cases hsamples : ∃ c, r = .samples c
  · obtain ⟨c, rfl⟩ := hsamples
    rcases postSamples_answer rt s c with ⟨e, heq⟩ | ⟨hlive, hauthority, -⟩
    · rw [App.answer, heq] at h
      cases h
    · exact ⟨_, hlive, hauthority⟩
  · have houtcome := handle_outcome rt s r (not_exists.mp hsamples)
    generalize s.handle rt r = s', s.answer rt r = answer at houtcome h
    cases houtcome with
    | refuse e => cases h
    | create draw n loc surveys creates created =>
      have hdraws := creates.draws
      rw [(Request.bearer_admin hr).2] at hdraws
      cases hdraws
    | collide now n refused => cases h
    | consent p args asked prepared => exact ⟨p.nodeId, prepared.live, asked ▸ prepared.authority⟩
    | delete now j surveys authority live => exact ⟨j, live, authority⟩

/-- A request refused as unauthorised or unknown changes nothing. -/
theorem refused_unchanged {rt : Runtime} {s : App} {r : Request} {status : Nat} {detail : String}
    (h : s.answer rt r = .error (.http status detail)) (hstatus : status = 401 ∨ status = 404) :
    s.handle rt r = s := by
  by_cases hsamples : ∃ c, r = .samples c
  · obtain ⟨c, rfl⟩ := hsamples
    rcases postSamples_answer rt s c with ⟨e, heq⟩ | ⟨-, -, -, hlate⟩
    · rw [App.handle, heq]
    · simp only [App.answer] at h
      generalize hpost : (postSamples rt s c).2 = answer at h hlate
      cases answer with
      | ok response => cases h
      | error e =>
        have he : e = .http status detail := Except.error.inj h
        rcases hlate e rfl with hlate | hlate
        · rw [hlate] at he
          cases he
          simp at hstatus
        · rw [hlate] at he
          cases he
  · have houtcome := handle_outcome rt s r (not_exists.mp hsamples)
    generalize s.handle rt r = s', s.answer rt r = answer at houtcome h ⊢
    cases houtcome with
    | refuse e => rfl
    | create => cases h
    | collide => cases h
    | consent => cases h
    | delete => cases h

/-- The request of a history that created a node, and what it drew for it. -/
structure Born (rt : Runtime) (s₀ : App) (ops : List Op) (id : String) (r : Request)
    (draw : Draw) : Prop where
  created : ∃ before later, ops = before ++ .request r :: later ∧
    (s₀.after rt before).db.lifecycle id = .absent ∧
    ((s₀.after rt before).step rt (.request r)).db.lifecycle id = .live
  draws : r.draw = some draw
  nodeId : draw.nodeId = id

theorem Born.append {rt : Runtime} {s₀ : App} {ops : List Op} {id : String} {r : Request}
    {draw : Draw} (h : Born rt s₀ ops id r draw) (op : Op) :
    Born rt s₀ (ops ++ [op]) id r draw := by
  obtain ⟨⟨before, later, rfl, habsent, hlive⟩, hdraws, hid⟩ := h
  exact ⟨⟨before, later ++ [op], by simp, habsent, hlive⟩, hdraws, hid⟩

/-- A live node has its token and its account from the request that created it, which showed the
internal credential if it named an account. -/
structure Accredited (rt : Runtime) (internalKey : Option String) (db : Database) (id : String)
    (r : Request) (draw : Draw) : Prop where
  token : db.getTokenHash id = some (rt.sha256 draw.token)
  owner : (db.getContributorRef id).isSome → requireInternal internalKey r.credential = .ok ()

theorem step_internalKey (rt : Runtime) (s : App) (op : Op) :
    (s.step rt op).internalKey = s.internalKey := by
  cases op with
  | drain parseFile ticks => rfl
  | request r =>
    by_cases h : ∃ c, r = .samples c
    · obtain ⟨c, rfl⟩ := h
      exact (postSamples_frame rt s c).2.2
    · exact (handle_effect rt s r (not_exists.mp h)).frame.2.2.2

theorem Database.getTokenHash_updateConsent (db : Database) (id j : String)
    (channels : Option (List Channel)) (loc : Option Database.LocationUpdate) :
    (db.updateConsent j channels loc).getTokenHash id = db.getTokenHash id := by
  rw [Database.getTokenHash, Database.tokens_updateConsent]
  rfl

theorem Database.getContributorRef_updateConsent (db : Database) (id j : String)
    (channels : Option (List Channel)) (loc : Option Database.LocationUpdate) :
    (db.updateConsent j channels loc).getContributorRef id = db.getContributorRef id := by
  rw [Database.getContributorRef, Database.nodePrivate_updateConsent]
  split
  · next heq =>
    rw [heq, Database.getContributorRef]
    cases db.nodePrivate.lookup j <;> rfl
  · rfl

/-- What a step leaves of the token and the account of a node that is live after it. -/
theorem step_token {rt : Runtime} {s : App} (hs : s.db.Consistent) {op : Op} {id : String}
    (hlive : (s.step rt op).db.lifecycle id = .live) :
    (s.db.lifecycle id = .live ∧
      (s.step rt op).db.getTokenHash id = s.db.getTokenHash id ∧
      (s.step rt op).db.getContributorRef id = s.db.getContributorRef id) ∨
    ∃ r draw, op = .request r ∧ r.draw = some draw ∧ draw.nodeId = id ∧
      s.db.lifecycle id = .absent ∧
      Accredited rt s.internalKey (s.step rt op).db id r draw := by
  rcases step_db rt s op with heq | ⟨r, rfl, hr⟩
  · rw [heq] at hlive ⊢
    exact Or.inl ⟨hlive, rfl, rfl⟩
  have houtcome := handle_outcome rt s r hr
  simp only [App.step] at hlive ⊢
  generalize s.handle rt r = s', s.answer rt r = answer at houtcome hlive ⊢
  cases houtcome with
  | refuse e => exact Or.inl ⟨hlive, rfl, rfl⟩
  | create draw n loc surveys creates created =>
    obtain ⟨db', heq, habsent, hnodes, htokens, hpriv, -⟩ := hs.created created
    rw [heq] at hlive ⊢
    by_cases hid : id = n.nodeId
    · subst hid
      refine Or.inr ⟨r, draw, rfl, creates.draws, creates.nodeId.symm, habsent, ?_, ?_⟩
      · rw [Database.getTokenHash, htokens, if_pos rfl, creates.token]
      · intro howner
        simp only [Database.getContributorRef, hpriv, if_true] at howner
        exact creates.owner howner
    · refine Or.inl ⟨?_, ?_, ?_⟩
      · simpa only [Database.lifecycle, hnodes, if_neg hid] using hlive
      · simp only [Database.getTokenHash, htokens, if_neg hid]
      · simp only [Database.getContributorRef, hpriv, if_neg hid]
  | collide now n refused =>
    rw [hs.collide refused] at hlive ⊢
    exact Or.inl ⟨hlive, rfl, rfl⟩
  | consent p args asked prepared =>
    rw [ConsentArgs.call, Database.lifecycle_updateConsent] at hlive
    exact Or.inl ⟨hlive, Database.getTokenHash_updateConsent _ _ _ _ _,
      Database.getContributorRef_updateConsent _ _ _ _ _⟩
  | delete now j surveys =>
    rcases Database.deleteNode_cases s.db now j with ⟨heq, -⟩ | ⟨heq, hj⟩
    · rw [heq] at hlive ⊢
      exact Or.inl ⟨hlive, rfl, rfl⟩
    · rw [heq] at hlive ⊢
      rw [Database.lifecycle_erase hj] at hlive
      split at hlive
      · cases hlive
      · next hne =>
        refine Or.inl ⟨hlive, ?_, ?_⟩
        · simp only [Database.getTokenHash, Database.erase, Table.lookup_deleteRow, if_neg hne]
        · simp only [Database.getContributorRef, Database.erase, Table.lookup_deleteRow,
            if_neg hne]

theorem after_accredited (rt : Runtime) (internalKey : Option String) (rowsPerMin : ℚ)
    (ops : List Op) :
    let s := (App.start internalKey rowsPerMin).after rt ops
    s.db.Consistent ∧ s.internalKey = internalKey ∧ ∀ id, s.db.lifecycle id = .live →
      ∃ r draw, Born rt (.start internalKey rowsPerMin) ops id r draw ∧
        Accredited rt internalKey s.db id r draw := by
  induction ops using List.reverseRecOn with
  | nil =>
    refine ⟨Database.empty_consistent, rfl, fun id hlive => ?_⟩
    simp [App.after, App.start, Database.lifecycle, Database.rowLifecycle] at hlive
  | append_singleton ops op ih =>
    obtain ⟨hdb, hkey, hlive⟩ := ih
    have hafter : (App.start internalKey rowsPerMin).after rt (ops ++ [op]) =
        ((App.start internalKey rowsPerMin).after rt ops).step rt op := by
      simp [App.after]
    simp only [hafter]
    refine ⟨step_consistent hdb op, (step_internalKey rt _ op).trans hkey, fun id hid => ?_⟩
    rcases step_token hdb hid with ⟨hbefore, htoken, howner⟩ |
      ⟨r, draw, rfl, hdraws, hnode, habsent, haccredited⟩
    · obtain ⟨r, draw, hborn, haccredited⟩ := hlive id hbefore
      refine ⟨r, draw, hborn.append op, ?_, ?_⟩
      · rw [htoken]
        exact haccredited.token
      · rw [howner]
        exact haccredited.owner
    · rw [hkey] at haccredited
      exact ⟨r, draw, ⟨⟨ops, [], rfl, habsent, hid⟩, hdraws, hnode⟩, haccredited⟩

def Op.token : Op → Option String
  | .request r => r.draw.map (·.token)
  | .drain _ _ => none

/-- Where every token is drawn once, a token was issued for one node. -/
theorem Born.unique {rt : Runtime} {s₀ : App} {ops : List Op} {id j : String} {r r' : Request}
    {draw draw' : Draw} (htokens : (ops.filterMap Op.token).Nodup)
    (h : Born rt s₀ ops id r draw) (h' : Born rt s₀ ops j r' draw')
    (hsame : draw'.token = draw.token) : j = id := by
  obtain ⟨⟨before, later, heq, -⟩, hdraws, hid⟩ := h
  obtain ⟨⟨before', later', heq', -⟩, hdraws', hid'⟩ := h'
  have hmem : Op.request r ∈ ops := by
    rw [heq]
    exact List.mem_append_right _ List.mem_cons_self
  have hmem' : Op.request r' ∈ ops := by
    rw [heq']
    exact List.mem_append_right _ List.mem_cons_self
  let Distinct (a b : Op) : Prop :=
    ∀ t, a.token = some t → ∀ t', b.token = some t' → t ≠ t'
  have hsymm : Std.Symm Distinct := ⟨fun a b hab t ht t' ht' heq => hab t' ht' t ht heq.symm⟩
  have hpairwise : ops.Pairwise Distinct := List.pairwise_filterMap.mp htokens
  have hdistinct := hpairwise.forall hmem' hmem
  by_cases hr : r' = r
  · rw [hr, hdraws] at hdraws'
    cases hdraws'
    exact hid'.symm.trans hid
  · have htoken : Op.token (.request r) = some draw.token := by rw [Op.token, hdraws]; rfl
    have htoken' : Op.token (.request r') = some draw'.token := by rw [Op.token, hdraws']; rfl
    exact absurd hsame (hdistinct (fun h => hr (Op.request.inj h)) _ htoken' _ htoken)

theorem Database.mem_getNodesByContributor_owner {db : Database} {ref : String} {node : Node}
    (h : node ∈ db.getNodesByContributor ref) :
    (db.getNode node.nodeId).isSome ∧ db.getContributorRef node.nodeId = some ref := by
  refine ⟨by rw [mem_getNodesByContributor h]; rfl, ?_⟩
  obtain ⟨id, -, hid⟩ := List.mem_filterMap.mp ((List.mem_insertionSort _).mp h)
  split at hid
  · next howner => rwa [getNode_nodeId hid]
  · cases hid

/-- A live node of an account. -/
def Owned (s : App) (contributorRef id : String) : Prop :=
  (s.db.getNode id).isSome ∧ s.db.getContributorRef id = some contributorRef

theorem listNodes_owned {s : App} {xGwInternal : Option String} {c : String}
    {views : List AdminNodeView} (h : Admin.listNodes s xGwInternal c = .ok views) :
    requireInternal s.internalKey xGwInternal = .ok () ∧ ∀ v ∈ views, Owned s c v.nodeId := by
  simp only [Admin.listNodes] at h
  split at h
  · cases h
  · next hcredential =>
    cases h
    refine ⟨hcredential, fun v hv => ?_⟩
    obtain ⟨node, hnode, rfl⟩ := List.mem_map.mp hv
    exact Database.mem_getNodesByContributor_owner hnode

theorem mem_areaFiles {area : Table String Folder} {id : String} {entry : String × Content}
    (h : entry ∈ areaFiles area id) : ∃ folder name, area.lookup id = some folder ∧
      folder.lookup name = some entry.2 ∧ entry.1 = id ++ "/" ++ name := by
  obtain ⟨name, -, hentry⟩ := List.mem_filterMap.mp h
  obtain ⟨content, hcontent, rfl⟩ := Option.map_eq_some_iff.mp hentry
  cases hfolder : area.lookup id with
  | none =>
    rw [hfolder] at hcontent
    simp at hcontent
  | some folder =>
    rw [hfolder] at hcontent
    exact ⟨folder, name, rfl, hcontent, rfl⟩

/-- A file of a survey folder of a node, under the name of the node. -/
def FileOf (s : App) (id : String) (entry : String × Content) : Prop :=
  ∃ area folder name, (area = s.surveys.archive ∨ area = s.surveys.inbox) ∧
    area.lookup id = some folder ∧ folder.lookup name = some entry.2 ∧ entry.1 = id ++ "/" ++ name

theorem accountExport_owned {s : App} {xGwInternal : Option String} {c now : String}
    {bundle : AccountExport} (h : accountExport s xGwInternal c now = .ok bundle) :
    requireInternal s.internalKey xGwInternal = .ok () ∧
      (∀ survey ∈ bundle.surveys, Owned s c survey.nodeId) ∧
      ∀ entry ∈ bundle.files, ∃ id, Owned s c id ∧ FileOf s id entry := by
  simp only [accountExport] at h
  split at h
  · cases h
  · next hcredential =>
    cases h
    refine ⟨hcredential, fun survey hsurvey => ?_, fun entry hentry => ?_⟩
    · obtain ⟨node, hnode, rfl⟩ := List.mem_map.mp hsurvey
      exact Database.mem_getNodesByContributor_owner hnode
    · obtain ⟨node, hnode, hentry⟩ := List.mem_flatMap.mp hentry
      refine ⟨node.nodeId, Database.mem_getNodesByContributor_owner hnode, ?_⟩
      rcases List.mem_append.mp hentry with hentry | hentry
      · obtain ⟨folder, name, h⟩ := mem_areaFiles hentry
        exact ⟨_, folder, name, Or.inl rfl, h⟩
      · obtain ⟨folder, name, h⟩ := mem_areaFiles hentry
        exact ⟨_, folder, name, Or.inr rfl, h⟩

theorem postSamples_nodeId (rt : Runtime) (s : App) (c : SamplesCall) :
    StagingTree.Appends (fun kind l => l.get kind "node_id" = .text c.body.nodeId) s.tree
      (postSamples rt s c).1.tree := by
  rcases postSamples_lineOf rt s c with h | ⟨node, hnode, h⟩
  · rw [h]
    exact .refl
  · apply h.mono
    rintro kind l ⟨r, hr, rfl⟩
    rw [Kind.csvLine_get, if_pos (by cases kind <;> decide), ← Database.getNode_nodeId hnode]
    cases hr <;> rfl

/-- Requests act only on what they own, over every history: a bearer request on the node whose
token it shows, an admin request on a live node of its account, a list or an export on the live
nodes of its account; an account comes with the internal credential, and a refused request changes
nothing. -/
theorem requests_owned (rt : Runtime) (hsha256 : Function.Injective rt.sha256)
    (internalKey : Option String) (rowsPerMin : ℚ) (ops : List Op)
    (htokens : (ops.filterMap Op.token).Nodup) :
    let s := (App.start internalKey rowsPerMin).after rt ops
    (∀ r authorization id, r.bearer = some (authorization, id) →
      ((s.answer rt r).isOk → (s.db.getNode id).isSome ∧ ∃ creator draw,
        Born rt (.start internalKey rowsPerMin) ops id creator draw ∧
        presentedToken rt authorization = some draw.token ∧
        ∀ j r' draw', Born rt (.start internalKey rowsPerMin) ops j r' draw' →
          draw'.token = draw.token → j = id) ∧
      (∀ j, j ≠ id → SameNode s (s.handle rt r) j) ∧
      StagingTree.Appends (fun kind l => l.get kind "node_id" = .text id) s.tree
        (s.handle rt r).tree) ∧
    (∀ r id c, r.admin = some (id, c) → (s.handle rt r).tree = s.tree ∧
      ∀ j, ¬ SameNode s (s.handle rt r) j → j = id ∧ Owned s c j) ∧
    (∀ xGwInternal c views, Admin.listNodes s xGwInternal c = .ok views →
      ∀ v ∈ views, Owned s c v.nodeId) ∧
    (∀ xGwInternal c now bundle, accountExport s xGwInternal c now = .ok bundle →
      (∀ survey ∈ bundle.surveys, Owned s c survey.nodeId) ∧
      ∀ entry ∈ bundle.files, ∃ id, Owned s c id ∧ FileOf s id entry) ∧
    (∀ id, (s.db.getContributorRef id).isSome → ∃ creator draw,
      Born rt (.start internalKey rowsPerMin) ops id creator draw ∧
      requireInternal internalKey creator.credential = .ok ()) ∧
    ∀ r status detail, s.answer rt r = .error (.http status detail) →
      status = 401 ∨ status = 404 → s.handle rt r = s := by
  intro s
  obtain ⟨hdb, -, hborn⟩ := after_accredited rt internalKey rowsPerMin ops
  refine ⟨fun r authorization id hr => ⟨fun hok => ?_, fun j hj => ?_, ?_⟩,
    fun r id c hr => ⟨?_, fun j hj => ?_⟩, fun _ _ _ h => (listNodes_owned h).2,
    fun _ _ _ _ h => (accountExport_owned h).2, fun id howner => ?_,
    fun r status detail h => refused_unchanged h⟩
  · obtain ⟨hlive, token, hshown, hstored⟩ := answer_bearer hr hok
    obtain ⟨creator, draw, hcreator, haccredited⟩ := hborn id (Database.getNode_isSome.mp hlive)
    have htoken : token = draw.token :=
      hsha256 (Option.some.inj (hstored.symm.trans haccredited.token))
    exact ⟨hlive, creator, draw, hcreator, htoken ▸ hshown,
      fun j r' draw' h' hsame => hcreator.unique htokens h' hsame⟩
  · by_contra h
    rcases handle_sameNode hdb h with ⟨-, hauthority⟩ | ⟨draw, hdraw, -⟩
    · exact hj (hauthority.bearer hr).1
    · rw [(Request.bearer_admin hr).2] at hdraw
      cases hdraw
  · by_cases hsamples : ∃ c, r = .samples c
    · obtain ⟨c, rfl⟩ := hsamples
      cases hr
      exact postSamples_nodeId rt s c
    · rw [(handle_effect rt s r (not_exists.mp hsamples)).frame.1]
      exact .refl
  · refine (handle_effect rt s r fun c hc => ?_).frame.1
    rw [hc] at hr
    cases hr
  · rcases handle_sameNode hdb hj with ⟨hlive, hauthority⟩ | ⟨draw, hdraw, -⟩
    · obtain ⟨rfl, howner⟩ := hauthority.admin hr
      exact ⟨rfl, hlive, howner⟩
    · rw [(Request.admin_bearer hr).2] at hdraw
      cases hdraw
  · have hlive : s.db.lifecycle id = .live := by
      rw [← hdb.nodePrivate]
      cases hrow : s.db.nodePrivate.lookup id with
      | none => simp [Database.getContributorRef, s, hrow] at howner
      | some row => rfl
    obtain ⟨creator, draw, hcreator, haccredited⟩ := hborn id hlive
    exact ⟨creator, draw, hcreator, haccredited.owner howner⟩

/-- A runtime for concrete runs whose hash is injective and right on the two tokens of the run. -/
def swapHashes : Runtime :=
  { Runtime.ascii with
    sha256 :=
      (Equiv.swap "secret" "2bb80d537b1da3e38bd30361aa855686bde0eacd7162fef6a25fe97bf527a25b").trans
        (Equiv.swap "token" "3c469e9d6c5875d37a43f353d4f88e61fcf812c66eee3457465a40b0da4153e0") }

/-- A node of an account and one without, each with a token of its own. -/
def twoNodesRun : List Op :=
  [.request (.register { contributorRef := some "alice" } (some "key") none
      ⟨"n1", "secret", "2026-07-10T08:00:00Z"⟩),
   .request (.register {} none none ⟨"n2", "token", "2026-07-10T08:00:00Z"⟩)]

theorem requests_owned_twoNodesRun :
    let s := (App.start (some "key") 6000).after swapHashes twoNodesRun
    Function.Injective swapHashes.sha256 ∧ (twoNodesRun.filterMap Op.token).Nodup ∧
      (s.db.getNode "n1").isSome ∧
      (∀ now, SameNode s (s.handle swapHashes (.deleteNode (some "Bearer secret") "n1" now)) "n2") ∧
      ∃ creator draw, Born swapHashes (.start (some "key") 6000) twoNodesRun "n1" creator draw ∧
        requireInternal (some "key") creator.credential = .ok () := by
  intro s
  have hsha256 : Function.Injective swapHashes.sha256 := Equiv.injective _
  have htokens : (twoNodesRun.filterMap Op.token).Nodup := by decide
  have howner : (s.db.getContributorRef "n1").isSome := by decide +kernel
  obtain ⟨hbearer, -, -, -, hcreator, -⟩ :=
    requests_owned swapHashes hsha256 (some "key") 6000 twoNodesRun htokens
  exact ⟨hsha256, htokens, by decide +kernel,
    fun now => (hbearer (.deleteNode _ "n1" now) _ _ rfl).2.1 "n2" (by decide),
    hcreator "n1" howner⟩

end GridWitness.Server
