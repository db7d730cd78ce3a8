import GridWitness.Server.HistoryLaws

namespace GridWitness.Server

open Library Survey

namespace Database

/-- The location of a node, as its two tables hold it. -/
def storedLocation (db : Database) (id : String) : Option LocationUpdate :=
  (db.nodes.lookup id).bind fun row => (db.nodePrivate.lookup id).map fun priv =>
    ⟨row.locTier, row.locRef, row.cellId, priv.postcode⟩

def channelsOf (db : Database) (id : String) : Option (List Channel) :=
  (db.nodes.lookup id).map (·.channels)

section UpdateConsent

variable (db : Database) (id : String) (channels : Option (List Channel))
  (loc : Option LocationUpdate)

theorem storedLocation_updateConsent (j : String) :
    (db.updateConsent id channels loc).storedLocation j =
      if j = id then (db.storedLocation id).map loc.getD else db.storedLocation j := by
  simp only [storedLocation, lookup_updateConsent, nodePrivate_updateConsent]
  split
  · cases db.nodes.lookup id with
    | none => rfl
    | some row =>
      cases db.nodePrivate.lookup id with
      | none => rfl
      | some priv => cases loc <;> rfl
  · rfl

theorem channelsOf_updateConsent (j : String) :
    (db.updateConsent id channels loc).channelsOf j =
      if j = id then (db.channelsOf id).map (channels.map sorted).getD else db.channelsOf j := by
  simp only [channelsOf, lookup_updateConsent]
  split
  · cases db.nodes.lookup id with
    | none => rfl
    | some row => cases channels <;> rfl
  · rfl

end UpdateConsent

theorem Consistent.storedLocation {db : Database} (hdb : db.Consistent) {id : String}
    (hlive : db.lifecycle id = .live) : (db.storedLocation id).isSome := by
  obtain ⟨priv, hpriv⟩ := Option.isSome_iff_exists.mp ((hdb.nodePrivate id).mpr hlive)
  cases hrow : db.nodes.lookup id with
  | none =>
    rw [lifecycle_absent hrow] at hlive
    cases hlive
  | some row => simp [Database.storedLocation, hrow, hpriv]

end Database

/-- Each live node is where the last accepted request that set its location has put it. -/
structure Settled (db : Database) (settled : Table String (LocTier × Location)) : Prop where
  consistent : db.Consistent
  located : ∀ id, db.lifecycle id = .live → ∃ tier loc,
    settled.lookup id = some (tier, loc) ∧ db.storedLocation id = some (loc.stored tier)
  kept : ∀ id tier loc, settled.lookup id = some (tier, loc) →
    (loc.storedPostcode.isSome ↔ tier = .dataShare)

section Settled

variable {rt : Runtime} {db : Database} {t : Table String (LocTier × Location)}

theorem empty_settled : Settled {} ∅ where
  consistent := Database.empty_consistent
  located id hid := by simp [Database.lifecycle, Database.rowLifecycle] at hid
  kept id tier loc h := by simp at h

/-- A call of `update_consent` that carries a location puts the node there, and any other call
leaves every location alone. -/
theorem Settled.consent (h : Settled db t) {p : Patch} {args : ConsentArgs}
    (hargs : p.Resolved rt args) : Settled (args.call db) (Serving.settle rt t p.request) := by
  refine ⟨Database.updateConsent_consistent _ _ _ h.consistent, ?_, ?_⟩
  · intro id hid
    rw [ConsentArgs.call, Database.lifecycle_updateConsent] at hid
    obtain ⟨tier, loc, hlog, hloc⟩ := h.located id hid
    rw [ConsentArgs.call, Database.storedLocation_updateConsent, Serving.settle, hargs.nodeId,
      hargs.location]
    cases hset : p.request.location rt with
    | none =>
      refine ⟨tier, loc, hlog, ?_⟩
      split
      · next heq =>
        rw [← heq, hloc]
        rfl
      · exact hloc
    | some l =>
      obtain ⟨j, tier', loc'⟩ := l
      obtain ⟨rfl, -⟩ := hargs.kept j tier' loc' hset
      dsimp only
      rw [Table.lookup_replaceRow]
      split
      · next heq =>
        rw [heq] at hloc
        exact ⟨tier', loc', rfl, by rw [hloc]; rfl⟩
      · exact ⟨tier, loc, hlog, hloc⟩
  · intro id tier loc hlog
    rw [Serving.settle] at hlog
    cases hset : p.request.location rt with
    | none =>
      rw [hset] at hlog
      exact h.kept id tier loc hlog
    | some l =>
      obtain ⟨j, tier', loc'⟩ := l
      rw [hset, Table.lookup_replaceRow] at hlog
      split at hlog
      · cases hlog
        exact (hargs.kept _ _ _ hset).2
      · exact h.kept id tier loc hlog

theorem Settled.create (h : Settled db t) {s : App} {r : Request} {draw : Draw} {n : NewNode}
    {loc : Location} {surveys : Surveys} (hr : r.Creates rt s draw n loc surveys)
    (hcreated : (db.createNode draw.now n).2 = true) :
    Settled (db.createNode draw.now n).1 (Serving.settle rt t r) := by
  refine ⟨Database.createNode_consistent h.consistent _ _, ?_, ?_⟩
  · obtain ⟨db', heq, -, hnodes, -, hpriv, -⟩ := h.consistent.created hcreated
    intro id hid
    rw [heq] at hid ⊢
    simp only [Serving.settle, hr.location, Table.lookup_replaceRow, Database.storedLocation,
      hnodes, hpriv]
    by_cases hnew : id = n.nodeId
    · rw [if_pos hnew, if_pos hnew, if_pos hnew]
      obtain ⟨href, hcell, hpostcode⟩ := hr.resolved
      exact ⟨n.locTier, loc, rfl, by
        simp [Database.nodeRow, Location.stored, href, hcell, hpostcode]⟩
    · simp only [Database.lifecycle, hnodes, if_neg hnew] at hid
      rw [if_neg hnew, if_neg hnew, if_neg hnew]
      exact h.located id hid
  · intro id tier loc' hlog
    rw [Serving.settle, hr.location] at hlog
    simp only [Table.lookup_replaceRow] at hlog
    split at hlog
    · cases hlog
      exact hr.kept
    · exact h.kept id tier loc' hlog

theorem Settled.delete (h : Settled db t) (now id : String) :
    Settled (db.deleteNode now id).1 t := by
  refine ⟨Database.deleteNode_consistent h.consistent now id, ?_, h.kept⟩
  rcases Database.deleteNode_cases db now id with ⟨heq, -⟩ | ⟨heq, hlive⟩
  · rw [heq]
    exact h.located
  · intro j hj
    rw [heq, Database.lifecycle_erase hlive] at hj
    split at hj
    · cases hj
    · next hne =>
      obtain ⟨tier, loc, hlog, hloc⟩ := h.located j hj
      refine ⟨tier, loc, hlog, ?_⟩
      rw [heq, ← hloc]
      simp only [Database.storedLocation, Database.erase, Table.lookup_updateRow,
        Table.lookup_deleteRow, if_neg hne]

end Settled

namespace Serving

/-- An event at which the `update_consent` call of a `PATCH` is made. -/
inductive Completes (rt : Runtime) (s : Serving) : Event → Patch → ConsentArgs → Prop
  | alone (p : Patch) (args : ConsentArgs) (prepared : p.prepare rt s.app = .ok args) :
    Completes rt s (.op (.request p.request)) p args
  | later (key : Nat) (p : Patch) (args : ConsentArgs)
      (underway : s.underway.lookup key = some ⟨p, args⟩) :
    Completes rt s (.update key) p args

/-- What holds between two events, whatever handlers are under way. -/
structure Inv (rt : Runtime) (s : Serving) : Prop where
  settled : Settled s.app.db s.settled
  resolved : ∀ key u, s.underway.lookup key = some u → u.patch.Resolved rt u.args
  known : ∀ key u, s.underway.lookup key = some u → s.app.db.lifecycle u.patch.nodeId ≠ .absent

variable {rt : Runtime} {s : Serving} {e : Event} {p : Patch} {args : ConsentArgs}

theorem start_inv (internalKey : Option String) (rowsPerMin : ℚ) :
    Inv rt (start internalKey rowsPerMin) where
  settled := empty_settled
  resolved key u h := by simp [start] at h
  known key u h := by simp [start] at h

theorem Completes.resolved (h : Completes rt s e p args) (hs : Inv rt s) :
    p.Resolved rt args := by
  cases h with
  | alone p args prepared => exact (Patch.prepare_ok prepared).toResolved
  | later key p args underway => exact hs.resolved key _ underway

theorem Completes.known (h : Completes rt s e p args) (hs : Inv rt s) :
    s.app.db.lifecycle p.nodeId ≠ .absent := by
  cases h with
  | alone p args prepared =>
    rw [Database.getNode_isSome.mp (Patch.prepare_ok prepared).live]
    exact Lifecycle.noConfusion
  | later key p args underway => exact hs.known key _ underway

theorem Completes.db_eq (h : Completes rt s e p args) :
    (s.step rt e).app.db = args.call s.app.db := by
  cases h with
  | alone p args prepared => simp only [step, (handle_patch rt s.app p).1, prepared, App.consent]
  | later key p args underway => simp only [step, underway]

/-- What an event does to the node store and to the record of settled locations. -/
inductive Effect (rt : Runtime) (s : Serving) (e : Event) :
    Database → Table String (LocTier × Location) → Prop
  | keep : Effect rt s e s.app.db s.settled
  | create (r : Request) (draw : Draw) (n : NewNode) (loc : Location) (surveys : Surveys)
      (creates : r.Creates rt s.app draw n loc surveys)
      (created : (s.app.db.createNode draw.now n).2 = true) :
    Effect rt s e (s.app.db.createNode draw.now n).1 (settle rt s.settled r)
  | collide (now : String) (n : NewNode) (refused : (s.app.db.createNode now n).2 = false) :
    Effect rt s e (s.app.db.createNode now n).1 s.settled
  | consent (p : Patch) (args : ConsentArgs) (completes : Completes rt s e p args) :
    Effect rt s e (args.call s.app.db) (settle rt s.settled p.request)
  | delete (now id : String) : Effect rt s e (s.app.db.deleteNode now id).1 s.settled

theorem request_effect (rt : Runtime) (s : Serving) (r : Request) :
    Effect rt s (.op (.request r)) (s.step rt (.op (.request r))).app.db
      (s.step rt (.op (.request r))).settled := by
  by_cases hsamples : ∃ c, r = .samples c
  · obtain ⟨c, rfl⟩ := hsamples
    have hsettled : (s.step rt (.op (.request (.samples c)))).settled = s.settled := by
      simp only [step]
      split <;> rfl
    rw [hsettled, step, App.handle, (postSamples_frame rt s.app c).1]
    exact .keep
  · by_cases hpatch : ∃ p : Patch, r = p.request
    · obtain ⟨p, rfl⟩ := hpatch
      obtain ⟨hstate, hanswer⟩ := handle_patch rt s.app p
      simp only [step, hstate, hanswer]
      cases hprep : p.prepare rt s.app with
      | error e => exact .keep
      | ok args => exact .consent p args (.alone p args hprep)
    · have houtcome := handle_outcome rt s.app r (not_exists.mp hsamples)
      simp only [step]
      generalize s.app.handle rt r = s', s.app.answer rt r = answer at houtcome ⊢
      cases houtcome with
      | refuse e => exact .keep
      | create draw n loc surveys creates created =>
        exact .create r draw n loc surveys creates created
      | collide now n refused => exact .collide now n refused
      | consent p args asked prepared => exact absurd ⟨p, asked⟩ hpatch
      | delete now id surveys authority live unlocated =>
        have hsettled : settle rt s.settled r = s.settled := by rw [settle, unlocated]
        simp only [Except.isOk, Except.toBool, if_true, hsettled]
        exact .delete now id

theorem step_effect (rt : Runtime) (s : Serving) (e : Event) :
    Effect rt s e (s.step rt e).app.db (s.step rt e).settled := by
  cases e with
  | op o =>
    cases o with
    | request r => exact request_effect rt s r
    | drain parseFile ticks =>
      simp only [step, App.step, (drain_consented rt parseFile ticks s.app.toSite).1]
      exact .keep
  | read key p =>
    simp only [step]
    split
    · exact .keep
    · split <;> exact .keep
  | update key =>
    simp only [step]
    split
    · exact .keep
    · next u hu => exact .consent u.patch u.args (.later key _ _ hu)

theorem step_moves (hs : s.app.db.Consistent) (e : Event) (id : String) :
    (s.app.db.lifecycle id).Moves ((s.step rt e).app.db.lifecycle id) := by
  have heffect := step_effect rt s e
  generalize (s.step rt e).app.db = db', (s.step rt e).settled = t' at heffect ⊢
  cases heffect with
  | keep => exact .stay
  | create r draw n => exact Database.createNode_moves hs draw.now n id
  | collide now n => exact Database.createNode_moves hs now n id
  | consent p args =>
    rw [ConsentArgs.call, Database.lifecycle_updateConsent]
    exact .stay
  | delete now j => exact Database.deleteNode_moves s.app.db now j id

theorem step_settled (hs : Inv rt s) (e : Event) :
    Settled (s.step rt e).app.db (s.step rt e).settled := by
  have heffect := step_effect rt s e
  generalize (s.step rt e).app.db = db', (s.step rt e).settled = t' at heffect ⊢
  cases heffect with
  | keep => exact hs.settled
  | create r draw n loc surveys creates created => exact hs.settled.create creates created
  | collide now n refused =>
    rw [hs.settled.consistent.collide refused]
    exact hs.settled
  | consent p args completes => exact hs.settled.consent (completes.resolved hs)
  | delete now id => exact hs.settled.delete now id

/-- A handler under way was so before, or the event is its read. -/
theorem step_underway {key : Nat} {u : Underway}
    (h : (s.step rt e).underway.lookup key = some u) :
    s.underway.lookup key = some u ∨ u.patch.prepare rt s.app = .ok u.args := by
  cases e with
  | op o => cases o <;> exact Or.inl h
  | read j p =>
    simp only [step] at h
    split at h
    · exact Or.inl h
    · split at h
      · exact Or.inl h
      · next args hargs =>
        rw [Table.lookup_replaceRow] at h
        split at h
        · cases h
          exact Or.inr hargs
        · exact Or.inl h
  | update j =>
    simp only [step] at h
    split at h
    · exact Or.inl h
    · rw [Table.lookup_deleteRow] at h
      split at h
      · cases h
      · exact Or.inl h

theorem step_inv (hs : Inv rt s) (e : Event) : Inv rt (s.step rt e) := by
  refine ⟨step_settled hs e, ?_, ?_⟩
  · intro key u hu
    rcases step_underway hu with hu | hprep
    · exact hs.resolved key u hu
    · exact (Patch.prepare_ok hprep).toResolved
  · intro key u hu
    refine Lifecycle.Moves.ne_absent (step_moves hs.settled.consistent e _) ?_
    rcases step_underway hu with hu | hprep
    · exact hs.known key u hu
    · rw [Database.getNode_isSome.mp (Patch.prepare_ok hprep).live]
      exact Lifecycle.noConfusion

theorem after_inv (hs : Inv rt s) (events : List Event) : Inv rt (s.after rt events) :=
  Trace.foldl_invariant (I := Inv rt) (fun _ e h => step_inv h e) hs events

/-- What a completed `PATCH` makes of the channels and the location of a node. -/
theorem Completes.effect (h : Completes rt s e p args) (hs : Inv rt s) (id : String) :
    (s.step rt e).app.db.channelsOf id =
        (if id = p.nodeId then (s.app.db.channelsOf id).map (p.channels.map sorted).getD
          else s.app.db.channelsOf id) ∧
      (s.step rt e).app.db.storedLocation id =
        if id = p.nodeId then
          (s.app.db.storedLocation id).map
            ((p.request.location rt).map fun l => l.2.2.stored l.2.1).getD
        else s.app.db.storedLocation id := by
  have hr := h.resolved hs
  rw [h.db_eq, ConsentArgs.call, Database.channelsOf_updateConsent,
    Database.storedLocation_updateConsent, hr.nodeId, hr.channels, hr.location]
  constructor
  · split
    · next heq => rw [heq]
    · rfl
  · split
    · next heq => rw [heq]
    · rfl

/-- An event that completes no `PATCH` of a node leaves a node that it does not create or erase
as it was. -/
theorem step_quiet (hs : Inv rt s) {id : String}
    (hquiet : ∀ p args, Completes rt s e p args → p.nodeId ≠ id)
    (hid : s.app.db.lifecycle id ≠ .absent) (hlive : (s.step rt e).app.db.lifecycle id = .live) :
    (s.step rt e).app.db.channelsOf id = s.app.db.channelsOf id ∧
      (s.step rt e).app.db.storedLocation id = s.app.db.storedLocation id := by
  have heffect := step_effect rt s e
  generalize (s.step rt e).app.db = db', (s.step rt e).settled = t' at heffect hlive ⊢
  cases heffect with
  | keep => exact ⟨rfl, rfl⟩
  | create r draw n loc surveys creates created =>
    obtain ⟨db', heq, habs, hnodes, -, hpriv, -⟩ := hs.settled.consistent.created created
    have hne : id ≠ n.nodeId := by
      rintro rfl
      exact hid habs
    rw [heq]
    simp only [Database.channelsOf, Database.storedLocation, hnodes, hpriv, if_neg hne, and_self]
  | collide now n refused =>
    rw [hs.settled.consistent.collide refused]
    exact ⟨rfl, rfl⟩
  | consent p args completes =>
    have hne : id ≠ args.nodeId := by
      rw [(completes.resolved hs).nodeId]
      exact (hquiet p args completes).symm
    rw [ConsentArgs.call, Database.channelsOf_updateConsent,
      Database.storedLocation_updateConsent, if_neg hne, if_neg hne]
    exact ⟨rfl, rfl⟩
  | delete now j =>
    rcases Database.deleteNode_cases s.app.db now j with ⟨heq, -⟩ | ⟨heq, hj⟩
    · rw [heq]
      exact ⟨rfl, rfl⟩
    · rw [heq, Database.lifecycle_erase hj] at hlive
      have hne : id ≠ j := by
        rintro rfl
        simp at hlive
      rw [heq]
      simp only [Database.channelsOf, Database.storedLocation, Database.erase,
        Table.lookup_updateRow, Table.lookup_deleteRow, if_neg hne, and_self]

/-- An event that completes no `PATCH` of a node. -/
def Spares (rt : Runtime) (id : String) (s : Serving) (e : Event) : Prop :=
  ∀ p args, Completes rt s e p args → p.nodeId ≠ id

/-- A node that exists now and lives later is live now. -/
theorem after_live (hs : Inv rt s) {id : String} (hid : s.app.db.lifecycle id ≠ .absent)
    {events : List Event} (h : (s.after rt events).app.db.lifecycle id = .live) :
    s.app.db.lifecycle id = .live := by
  cases hl : s.app.db.lifecycle id with
  | absent => exact absurd hl hid
  | live => rfl
  | deleted =>
    have keep : ∀ s e, Inv rt s ∧ s.app.db.lifecycle id = .deleted →
        Inv rt (s.step rt e) ∧ (s.step rt e).app.db.lifecycle id = .deleted := by
      rintro s e ⟨hs, hdel⟩
      exact ⟨step_inv hs e, (hdel ▸ step_moves hs.settled.consistent e id).of_deleted⟩
    have hdel := (Trace.foldl_invariant keep ⟨hs, hl⟩ events).2
    rw [after, hdel] at h
    cases h

theorem after_quiet (hs : Inv rt s) {id : String} {events : List Event}
    (hquiet : Trace.Along (step rt) (Spares rt id) s events)
    (hid : s.app.db.lifecycle id ≠ .absent)
    (hlive : (s.after rt events).app.db.lifecycle id = .live) :
    (s.after rt events).app.db.channelsOf id = s.app.db.channelsOf id ∧
      (s.after rt events).app.db.storedLocation id = s.app.db.storedLocation id := by
  induction events generalizing s with
  | nil => exact ⟨rfl, rfl⟩
  | cons e events ih =>
    have hid' : (s.step rt e).app.db.lifecycle id ≠ .absent :=
      (step_moves hs.settled.consistent e id).ne_absent hid
    obtain ⟨hchannels, hloc⟩ := ih (step_inv hs e) hquiet.2 hid' hlive
    have hstep := step_quiet hs hquiet.1 hid (after_live (step_inv hs e) hid' hlive)
    exact ⟨hchannels.trans hstep.1, hloc.trans hstep.2⟩

/-- The channels of a completed `PATCH` stay until another one of the node is completed. -/
theorem channels_take_effect (hs : Inv rt s) (h : Completes rt s e p args)
    {cs : List Channel} (hcs : p.channels = some cs)
    (hlive : (s.step rt e).app.db.lifecycle p.nodeId = .live) :
    (s.step rt e).app.db.channelsOf p.nodeId = some (sorted cs) := by
  have hbefore : s.app.db.lifecycle p.nodeId = .live :=
    @after_live rt s hs _ (h.known hs) [e] hlive
  obtain ⟨row, hrow⟩ : ∃ row, s.app.db.nodes.lookup p.nodeId = some row := by
    cases hrow : s.app.db.nodes.lookup p.nodeId with
    | none =>
      rw [Database.lifecycle_absent hrow] at hbefore
      cases hbefore
    | some row => exact ⟨row, rfl⟩
  rw [(h.effect hs p.nodeId).1, if_pos rfl, hcs, Database.channelsOf, hrow]
  rfl

theorem location_takes_effect (hs : Inv rt s) (h : Completes rt s e p args)
    {id : String} {tier : LocTier} {loc : Location}
    (hloc : p.request.location rt = some (id, tier, loc))
    (hlive : (s.step rt e).app.db.lifecycle p.nodeId = .live) :
    (s.step rt e).app.db.storedLocation p.nodeId = some (loc.stored tier) := by
  have hbefore : s.app.db.lifecycle p.nodeId = .live :=
    @after_live rt s hs _ (h.known hs) [e] hlive
  obtain ⟨old, hold⟩ :=
    Option.isSome_iff_exists.mp (hs.settled.consistent.storedLocation hbefore)
  rw [(h.effect hs p.nodeId).2, if_pos rfl, hloc, hold]
  rfl

theorem location_none {p : Patch} (h : p.locTier = none) : p.request.location rt = none := by
  cases p with
  | byNode authorization body clientIp =>
    rw [Patch.request, Request.location, show body.locTier = none from h]
    rfl
  | byAccount xGwInternal nodeId contributorRef body =>
    rw [Patch.request, Request.location, show body.locTier = none from h]
    rfl

/-- A `PATCH` of the channels alone keeps the location of every node. -/
theorem channels_only (hs : Inv rt s) (h : Completes rt s e p args) (hp : p.locTier = none)
    (id : String) : (s.step rt e).app.db.storedLocation id = s.app.db.storedLocation id := by
  rw [(h.effect hs id).2, location_none hp]
  split
  · next heq =>
    rw [heq]
    cases s.app.db.storedLocation p.nodeId <;> rfl
  · rfl

theorem location_only (hs : Inv rt s) (h : Completes rt s e p args) (hp : p.channels = none)
    (id : String) : (s.step rt e).app.db.channelsOf id = s.app.db.channelsOf id := by
  rw [(h.effect hs id).1, hp]
  split
  · next heq =>
    rw [heq]
    cases s.app.db.channelsOf p.nodeId <;> rfl
  · rfl

/-- Of two completed `PATCH`es of a node, one of the channels alone and one of the location alone,
the second leaves the effect of the first. -/
theorem both_take_effect {s₁ s₂ s₄ : Serving} {e₁ e₂ : Event} {mid post : List Event} {p₁ p₂ : Patch}
    {a₁ a₂ : ConsentArgs} {id : String} (hs₁ : Inv rt s₁) (h₁ : Completes rt s₁ e₁ p₁ a₁)
    (hmid : Trace.Along (step rt) (Spares rt id) (s₁.step rt e₁) mid)
    (hs₂ : (s₁.step rt e₁).after rt mid = s₂) (h₂ : Completes rt s₂ e₂ p₂ a₂)
    (hpost : Trace.Along (step rt) (Spares rt id) (s₂.step rt e₂) post)
    (hs₄ : (s₂.step rt e₂).after rt post = s₄) (hid₁ : p₁.nodeId = id) (hid₂ : p₂.nodeId = id)
    (hlive : s₄.app.db.lifecycle id = .live) :
    (p₂.channels = none → ∀ cs, p₁.channels = some cs → s₄.app.db.channelsOf id = some (sorted cs)) ∧
    (p₂.locTier = none → ∀ j tier loc, p₁.request.location rt = some (j, tier, loc) →
      s₄.app.db.storedLocation id = some (loc.stored tier)) ∧
    (∀ cs, p₂.channels = some cs → s₄.app.db.channelsOf id = some (sorted cs)) ∧
    ∀ j tier loc, p₂.request.location rt = some (j, tier, loc) →
      s₄.app.db.storedLocation id = some (loc.stored tier) := by
  subst hs₂ hs₄ hid₁
  have hs₂ := after_inv (step_inv hs₁ e₁) mid
  have hknown₂ := hid₂ ▸ h₂.known hs₂
  have hknown₃ := (@step_moves rt _ hs₂.settled.consistent e₂ p₁.nodeId).ne_absent hknown₂
  have hknown₁ := (@step_moves rt _ hs₁.settled.consistent e₁ p₁.nodeId).ne_absent (h₁.known hs₁)
  have hlive₃ := after_live (step_inv hs₂ e₂) hknown₃ hlive
  have hlive₂ := @after_live rt _ hs₂ _ hknown₂ [e₂] hlive₃
  have hlive₁ := after_live (step_inv hs₁ e₁) hknown₁ hlive₂
  obtain ⟨hchannels, hloc⟩ := after_quiet (step_inv hs₂ e₂) hpost hknown₃ hlive
  obtain ⟨hchannels', hloc'⟩ := after_quiet (step_inv hs₁ e₁) hmid hknown₁ hlive₂
  rw [hchannels, hloc]
  refine ⟨fun hnone cs hcs => ?_, fun hnone j tier loc hset => ?_, fun cs hcs => ?_,
    fun j tier loc hset => ?_⟩
  · rw [location_only hs₂ h₂ hnone, hchannels']
    exact channels_take_effect hs₁ h₁ hcs hlive₁
  · rw [channels_only hs₂ h₂ hnone, hloc']
    exact location_takes_effect hs₁ h₁ hset hlive₁
  · rw [← hid₂] at hlive₃ ⊢
    exact channels_take_effect hs₂ h₂ hcs hlive₃
  · rw [← hid₂] at hlive₃ ⊢
    exact location_takes_effect hs₂ h₂ hset hlive₃

/-- Location state is consistent: over every history, handlers interleaved, each live node is where
the last accepted request that set its location has put it, with a private postcode exactly in the
tier that shares one; a `PATCH` of the channels alone keeps every location and one of the location
alone every set of channels; and of two such `PATCH`es of a node both take effect. -/
theorem location_consistent (rt : Runtime) (internalKey : Option String) (rowsPerMin : ℚ)
    (events : List Event) :
    let s := (start internalKey rowsPerMin).after rt events
    (∀ id node, s.app.db.getNode id = some node → ∃ tier loc priv,
      s.settled.lookup id = some (tier, loc) ∧ s.app.db.nodePrivate.lookup id = some priv ∧
      node.locTier = tier ∧ node.locRef = loc.locRef ∧ node.cellId = loc.cellId ∧
      priv.postcode = loc.storedPostcode ∧ (priv.postcode.isSome ↔ node.locTier = .dataShare)) ∧
    (∀ e p args, Completes rt s e p args → ∀ id,
      (p.locTier = none → (s.step rt e).app.db.storedLocation id = s.app.db.storedLocation id) ∧
      (p.channels = none → (s.step rt e).app.db.channelsOf id = s.app.db.channelsOf id)) ∧
    ∀ e₁ p₁ a₁ mid e₂ p₂ a₂ post id,
      let s₁ := s.step rt e₁
      let s₂ := s₁.after rt mid
      let s₃ := s₂.step rt e₂
      let s₄ := s₃.after rt post
      Completes rt s e₁ p₁ a₁ → Trace.Along (step rt) (Spares rt id) s₁ mid →
      Completes rt s₂ e₂ p₂ a₂ → Trace.Along (step rt) (Spares rt id) s₃ post →
      p₁.nodeId = id → p₂.nodeId = id → (s₄.app.db.getNode id).isSome →
      ∀ p q, (p = p₁ ∧ q = p₂ ∨ p = p₂ ∧ q = p₁) → p.locTier = none → q.channels = none →
        (∀ cs, p.channels = some cs → s₄.app.db.channelsOf id = some (sorted cs)) ∧
        ∀ j tier loc, q.request.location rt = some (j, tier, loc) →
          s₄.app.db.storedLocation id = some (loc.stored tier) := by
  intro s
  have hs : Inv rt s := after_inv (start_inv internalKey rowsPerMin) events
  refine ⟨?_, fun e p args h id => ⟨fun hp => channels_only hs h hp id,
    fun hp => location_only hs h hp id⟩, ?_⟩
  · intro id node hnode
    have hlive : s.app.db.lifecycle id = .live := Database.getNode_isSome.mp (by rw [hnode]; rfl)
    obtain ⟨tier, loc, hlog, hloc⟩ := hs.settled.located id hlive
    obtain ⟨row, hrow, hstored⟩ := Option.bind_eq_some_iff.mp hloc
    obtain ⟨priv, hpriv, hfields⟩ := Option.map_eq_some_iff.mp hstored
    obtain ⟨rfl, href, hcell, hpostcode⟩ := Database.LocationUpdate.mk.inj hfields
    simp only [Database.getNode, hrow] at hnode
    split at hnode
    · cases hnode
      refine ⟨_, loc, priv, hlog, hpriv, rfl, href, hcell, hpostcode, ?_⟩
      rw [hpostcode]
      exact hs.settled.kept id _ loc hlog
    · cases hnode
  · intro e₁ p₁ a₁ mid e₂ p₂ a₂ post id s₁ s₂ s₃ s₄ h₁ hmid h₂ hpost hid₁ hid₂ hlive p q horder hp hq
    obtain ⟨hchannels₁, hloc₁, hchannels₂, hloc₂⟩ := both_take_effect hs h₁ hmid rfl h₂ hpost rfl
      hid₁ hid₂ (Database.getNode_isSome.mp hlive)
    rcases horder with ⟨rfl, rfl⟩ | ⟨rfl, rfl⟩
    · exact ⟨hchannels₁ hq, hloc₂⟩
    · exact ⟨hchannels₂, hloc₁ hp⟩

end Serving

end GridWitness.Server
