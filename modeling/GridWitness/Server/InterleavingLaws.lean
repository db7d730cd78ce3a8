import GridWitness.Server.OwnershipLaws
import GridWitness.Server.StandingLaws
import GridWitness.Server.ThreadsLaws

namespace GridWitness.Server

open Library

/-- What a request shows to act on an existing node: its token, or the account it belongs to. -/
inductive Claimed
  | token (presented : String)
  | owner (contributorRef : String)

namespace Claimed

variable {k : Claimed} {id : String} {db : Database}

def check (k : Claimed) (db : Database) (id : String) : Except Failure Node :=
  match k with
  | token presented => authenticateNode db presented id
  | owner contributorRef => ownedNode db id contributorRef

/-- The standing of an id bears the claim out. -/
def Holds (k : Claimed) (st : Standing) : Prop :=
  match k with
  | token presented => st.token = some presented
  | owner contributorRef => st.owner = some contributorRef

theorem Holds.live {st : Standing} (h : k.Holds st) : ∃ row token priv, st = .live row token priv := by
  cases st with
  | absent => cases k <;> cases h
  | live row token priv => exact ⟨row, token, priv, rfl⟩
  | erased tombstone => cases k <;> cases h

/-- A call of another handler leaves the claim true, or erases the node. -/
theorem Holds.call {st : Standing} (h : k.Holds st) (id : String) (c : Database.Call) :
    k.Holds (st.call id c) ∨ ∃ tombstone, st.call id c = .erased tombstone := by
  obtain ⟨row, token, priv, rfl⟩ := h.live
  cases c with
  | updateConsent j channels loc =>
    simp only [Standing.call]
    split
    · exact Or.inl (by cases k <;> exact h)
    · exact Or.inl h
  | deleteNode now j =>
    simp only [Standing.call]
    split
    · exact Or.inr ⟨now, rfl⟩
    · exact Or.inl h
  | _ => exact Or.inl h

theorem check_ok (hdb : db.Consistent) (h : k.Holds (db.standing id)) :
    ∃ node, k.check db id = .ok node ∧ db.getNode id = some node := by
  obtain ⟨row, token, priv, hlive⟩ := h.live
  have hnode : db.getNode id = some ⟨row, id⟩ := by
    rw [Database.getNode_standing hdb, hlive]
    rfl
  refine ⟨⟨row, id⟩, ?_, hnode⟩
  cases k with
  | token presented => simp [check, authenticateNode, hnode, Database.getTokenHash_standing hdb, show _ = _ from h]
  | owner contributorRef =>
    simp [check, ownedNode, hnode, Database.getContributorRef_standing hdb, show _ = _ from h]

theorem check_erased (hdb : db.Consistent) {tombstone : String} (h : db.standing id = .erased tombstone) :
    k.check db id = .error (.http 404 "unknown node") := by
  have hnode : db.getNode id = none := by
    rw [Database.getNode_standing hdb, h]
    rfl
  cases k with
  | token presented => simp [check, authenticateNode, hnode]
  | owner contributorRef => simp [check, ownedNode, hnode]

end Claimed

/-- Two servers whose node stores say the same of every id, under the same internal key. -/
structure App.Agrees (s q : App) : Prop where
  internalKey : q.internalKey = s.internalKey
  left : s.db.Consistent
  right : q.db.Consistent
  standing : ∀ id, q.db.standing id = s.db.standing id

/-- The same call on both sides. -/
theorem App.Agrees.call {s s' q q' : App} (h : s.Agrees q) (c : Database.Call) (hs : s'.db = s.db.call c)
    (hq : q'.db = q.db.call c) (hkey : s'.internalKey = s.internalKey) (hkey' : q'.internalKey = q.internalKey) :
    s'.Agrees q' where
  internalKey := by rw [hkey', hkey, h.internalKey]
  left := hs ▸ Database.call_consistent h.left c
  right := hq ▸ Database.call_consistent h.right c
  standing id := by rw [hs, hq, Database.standing_call h.left, Database.standing_call h.right, h.standing]

namespace Route

variable {rt : Runtime} {internalKey : Option String} {r : Request} {id : String} {k : Claimed}

/-- What other handlers do to the node store: one call. -/
structure Rely (s s' : App) : Prop where
  internalKey : s'.internalKey = s.internalKey
  called : ∃ c, s'.db = s.db.call c

def Sound (internalKey : Option String) (s : App) : Prop := s.internalKey = internalKey ∧ s.db.Consistent

theorem Rely.sound {s s' : App} (h : Rely s s') (hs : Sound internalKey s) : Sound internalKey s' := by
  obtain ⟨c, hc⟩ := h.called
  exact ⟨h.internalKey.trans hs.1, hc ▸ Database.call_consistent hs.2 c⟩

/-- The claim was borne out, and the node is as it was then or erased. -/
def Stands (k : Claimed) (id : String) (s : App) : Prop :=
  k.Holds (s.db.standing id) ∨ ∃ tombstone, s.db.standing id = .erased tombstone

theorem Rely.stands {s s' : App} (h : Rely s s') (hs : s.db.Consistent) (hstands : Stands k id s) :
    Stands k id s' := by
  obtain ⟨c, hc⟩ := h.called
  rw [Stands, hc, Database.standing_call hs]
  rcases hstands with hholds | ⟨tombstone, herased⟩
  · exact hholds.call id c
  · rw [herased]
    exact Or.inr ⟨tombstone, Standing.call_erased tombstone id c⟩

/-- What an access of a handler does, by its label; `seen` are the states its earlier accesses found. -/
structure Guarantee (rt : Runtime) (r : Request) (label : Access) (seen : List App) (s s' : App) : Prop where
  internalKey : s'.internalKey = s.internalKey
  db : s'.db = match label with
    | .db c => s.db.call c
    | _ => s.db
  serves : label.writes = true → ∀ q, s.Agrees q → s'.Agrees (q.handle rt r)
  acts : ∀ id, s'.db.standing id ≠ s.db.standing id →
    (s.db.standing id = .absent ∧ ∃ draw, r.draw = some draw ∧ draw.nodeId = id) ∨
      ∃ s₁ ∈ seen, r.Authority rt s₁ id
  stages : s'.tree = s.tree ∨
    ∃ node, (∃ s₀ ∈ seen, s₀.db.getNode node.nodeId = some node) ∧ (∃ s₁ ∈ seen, r.Authority rt s₁ node.nodeId) ∧
      StagingTree.Appends (LineOf node) s.tree s'.tree

theorem Guarantee.rely {label : Access} {seen : List App} {s s' : App} (h : Guarantee rt r label seen s s') :
    Rely s s' := by
  refine ⟨h.internalKey, ?_⟩
  have hdb := h.db
  cases label with
  | db c => exact ⟨c, hdb⟩
  | stage kind rows => exact ⟨.getNode "", hdb⟩
  | other => exact ⟨.getNode "", hdb⟩

/-- An access that changes neither the node store nor the staging files. -/
theorem Guarantee.quiet {label : Access} {seen : List App} {s s' : App} (hwrites : label.writes = false)
    (hkey : s'.internalKey = s.internalKey) (hdb : s'.db = s.db) (htree : s'.tree = s.tree) :
    Guarantee rt r label seen s s' where
  internalKey := hkey
  db := by
    rw [hdb]
    cases label with
    | db c => cases c <;> first | rfl | cases hwrites
    | stage => rfl
    | other => rfl
  serves h := by rw [hwrites] at h; cases h
  acts id h := absurd (by rw [hdb]) h
  stages := Or.inl htree

section Check

variable {α : Type} {P : Prog.Assertion App} {Q : α → Prog.Assertion App}

theorem ask_ensures {label : Access} (hwrites : label.writes = false) (f : App → α)
    (hstable : ∀ a, Prog.Stable Rely (Q a)) (h : ∀ seen s, P seen s → Q (f s) (seen ++ [s]) s) :
    (Prog.ask label f : Route α).Ensures Rely (Guarantee rt r) Q P :=
  .call hstable fun seen s hpre => ⟨.quiet hwrites rfl rfl rfl, h seen s hpre⟩

def check (k : Claimed) (id : String) : Route Node :=
  match k with
  | .token presented => authenticateNode presented id
  | .owner contributorRef => ownedNode id contributorRef

/-- What is known once a check has let a request through: the node as it was read, a state in which the request
had its authority, and that the node is still there on it or erased. -/
structure Checked (rt : Runtime) (internalKey : Option String) (r : Request) (k : Claimed) (id : String)
    (node : Node) (seen : List App) (s : App) : Prop where
  sound : Sound internalKey s
  nodeId : node.nodeId = id
  found : ∃ s₀ ∈ seen, s₀.db.getNode id = some node
  authority : ∃ s₁ ∈ seen, r.Authority rt s₁ id
  stands : Stands k id s

theorem sound_stable {X : List App → Prop} : Prog.Stable Rely fun seen s => Sound internalKey s ∧ X seen :=
  fun _ _ _ hrely h => ⟨hrely.sound h.1, h.2⟩

theorem stands_stable {X : List App → Prop} {p : Prop} :
    Prog.Stable Rely fun seen s => Sound internalKey s ∧ X seen ∧ (p → Stands k id s) :=
  fun _ _ _ hrely h => ⟨hrely.sound h.1, h.2.1, fun hp => hrely.stands h.1.2 (h.2.2 hp)⟩

theorem exists_seen {X : App → Prop} {seen : List App} (s : App) (h : ∃ x ∈ seen, X x) :
    ∃ x ∈ seen ++ [s], X x := by
  obtain ⟨x, hx, hX⟩ := h
  exact ⟨x, List.mem_append_left _ hx, hX⟩

theorem mem_seen (seen : List App) (s : App) : s ∈ seen ++ [s] :=
  List.mem_append_right _ (List.mem_singleton_self s)

/-- The second half of a check: what is stored is compared with what the request shows. -/
theorem compare_ensures {label : Access} (hwrites : label.writes = false) (f : App → Option String)
    (expected : String) (e : Failure) (node : Node)
    (hholds : ∀ s, Sound internalKey s → f s = some expected → k.Holds (s.db.standing id))
    (hauthority : ∀ s : App, Sound internalKey s → k.Holds (s.db.standing id) → r.Authority rt s id) :
    (do let stored ← Prog.ask label f
        if stored = some expected then pure node else .raise e : Route Node).Ensures Rely (Guarantee rt r)
      (Checked rt internalKey r k id)
      fun seen s => Sound internalKey s ∧ ∀ node' ∈ some node, ∃ s₀ ∈ seen, s₀.db.getNode id = some node' := by
  have hstored : (Prog.ask label f : Route (Option String)).Ensures Rely (Guarantee rt r)
      (fun stored seen s => Sound internalKey s ∧
        ((∃ s₀ ∈ seen, s₀.db.getNode id = some node) ∧
          (stored = some expected → ∃ s₁ ∈ seen, r.Authority rt s₁ id)) ∧
        (stored = some expected → Stands k id s))
      fun seen s => Sound internalKey s ∧ ∀ node' ∈ some node, ∃ s₀ ∈ seen, s₀.db.getNode id = some node' :=
    ask_ensures hwrites f (fun _ => stands_stable) fun seen s hs => by
      refine ⟨hs.1, ⟨exists_seen s (hs.2 node rfl), fun h => ?_⟩, fun h => Or.inl (hholds s hs.1 h)⟩
      exact ⟨s, mem_seen seen s, hauthority s hs.1 (hholds s hs.1 h)⟩
  refine hstored.bind fun stored => ?_
  by_cases hsame : stored = some expected
  · subst hsame
    rw [if_pos rfl]
    refine .pure fun seen s hs => ?_
    obtain ⟨hsound, ⟨hfound, hseen⟩, hstands⟩ := hs
    have hnode : node.nodeId = id := by
      obtain ⟨s₀, -, hs₀⟩ := hfound
      exact Database.getNode_nodeId hs₀
    exact ⟨hsound, hnode, hfound, hseen rfl, hstands rfl⟩
  · rw [if_neg hsame]
    exact .raise

theorem check_ensures (k : Claimed) (id : String)
    (hauthority : ∀ s : App, Sound internalKey s → k.Holds (s.db.standing id) → r.Authority rt s id) :
    (check k id).Ensures Rely (Guarantee rt r) (Checked rt internalKey r k id) fun _ s => Sound internalKey s := by
  have hget : (getNode id).Ensures Rely (Guarantee rt r)
      (fun found seen s => Sound internalKey s ∧ ∀ node ∈ found, ∃ s₀ ∈ seen, s₀.db.getNode id = some node)
      fun _ s => Sound internalKey s :=
    ask_ensures rfl _ (fun _ => sound_stable) fun seen s hs => ⟨hs, fun node hnode => ⟨s, mem_seen seen s, hnode⟩⟩
  cases k with
  | token presented =>
    refine hget.bind fun found => ?_
    cases found with
    | none => exact .raise
    | some node =>
      exact compare_ensures rfl _ presented _ node
        (fun s hs h => (Database.getTokenHash_standing hs.2 id).symm.trans h) hauthority
  | owner contributorRef =>
    refine hget.bind fun found => ?_
    cases found with
    | none => exact .raise
    | some node =>
      exact compare_ensures rfl _ contributorRef _ node
        (fun s hs h => (Database.getContributorRef_standing hs.2 id).symm.trans h) hauthority

/-- The write that ends a checked request: what it does to its node, and that the request on its own does the
same wherever its check still stands. -/
theorem write_ensures {β : Type} {c : Database.Call} {f : App → App × β} {node : Node}
    (hf : ∀ s : App, (f s).1 = { s with db := s.db.call c }) (htarget : node.nodeId = id → c.target = some id)
    (hserves : ∀ q : App, q.internalKey = internalKey → q.db.Consistent → node.nodeId = id →
      k.Holds (q.db.standing id) → (q.handle rt r).db = q.db.call c ∧ (q.handle rt r).internalKey = q.internalKey)
    (herased : ∀ (q : App) tombstone, q.internalKey = internalKey → q.db.Consistent →
      q.db.standing id = .erased tombstone → q.handle rt r = q) :
    (Prog.call (.db c) f : Route β).Ensures Rely (Guarantee rt r) (fun _ _ _ => True)
      (Checked rt internalKey r k id node) := by
  refine .call (fun _ _ _ _ _ _ => trivial) fun seen s hs => ⟨?_, trivial⟩
  rw [hf s]
  exact
    { internalKey := rfl
      db := rfl
      serves := fun _ q hq => by
        rcases hs.stands with hholds | ⟨tombstone, hgone⟩
        · rw [← hq.standing] at hholds
          obtain ⟨hdb, hkey⟩ :=
            hserves q (hq.internalKey.trans hs.sound.1) hq.right hs.nodeId hholds
          exact hq.call c rfl hdb rfl hkey
        · rw [herased q tombstone (hq.internalKey.trans hs.sound.1) hq.right (by rw [hq.standing, hgone])]
          refine ⟨hq.internalKey, Database.call_consistent hq.left c, hq.right, fun j => ?_⟩
          rw [hq.standing, Database.standing_call hq.left]
          by_cases hj : j = id
          · rw [hj, hgone, Standing.call_erased]
          · rw [Standing.call_other (by rw [htarget hs.nodeId]; exact fun h => hj (Option.some.inj h).symm)]
      acts := fun j hj => by
        rw [Database.standing_call hs.sound.2] at hj
        by_cases hid : j = id
        · rw [hid]
          exact Or.inr hs.authority
        · refine absurd (Standing.call_other ?_ _) hj
          rw [htarget hs.nodeId]
          exact fun h => hid (Option.some.inj h).symm
      stages := Or.inl rfl }

end Check

theorem requireInternal_ensures (xGwInternal : Option String) :
    (requireInternal xGwInternal).Ensures Rely (Guarantee rt r)
      (fun _ _ s => Sound internalKey s ∧ Server.requireInternal internalKey xGwInternal = .ok ())
      fun _ s => Sound internalKey s := by
  have hasked : (Prog.ask .other fun s => Server.requireInternal s.internalKey xGwInternal :
      Route (Except Failure Unit)).Ensures Rely (Guarantee rt r)
      (fun checked _ s => Sound internalKey s ∧ Server.requireInternal internalKey xGwInternal = checked)
      fun _ s => Sound internalKey s :=
    ask_ensures rfl _ (fun _ => sound_stable (X := fun _ => _)) fun seen s hs => ⟨hs, by rw [hs.1]⟩
  refine hasked.bind fun checked => .ofExcept fun a ha seen s hs => ?_
  rw [ha] at hs
  exact hs

/-- The arguments of the call do not depend on when the node was read. -/
theorem consentArgs_call {node node' : Node} {channels : Option (List Channel)} {locTier : Option LocTier}
    {region postcode clientIp : Option String} {args : ConsentArgs}
    (h : consentArgs rt node channels locTier region postcode clientIp = .ok args)
    (hid : node'.nodeId = node.nodeId) :
    ∃ args', consentArgs rt node' channels locTier region postcode clientIp = .ok args' ∧
      args'.call = args.call := by
  cases locTier with
  | none =>
    cases h
    exact ⟨⟨node'.nodeId, channels, none, node'.locRef, node'.cellId, none⟩, rfl, by rw [hid]; rfl⟩
  | some tier =>
    simp only [consentArgs] at h ⊢
    cases hcheck : checkLocation tier region postcode with
    | error e =>
      rw [hcheck] at h
      cases h
    | ok _ =>
      rw [hcheck] at h
      cases h
      exact ⟨_, rfl, by rw [hid]⟩

theorem update_ensures {p : Patch} {region postcode clientIp : Option String} {node : Node} {args : ConsentArgs}
    (hprepare : ∀ q : App, q.internalKey = internalKey →
      p.prepare rt q = match k.check q.db p.nodeId with
        | .error e => .error e
        | .ok node' => consentArgs rt node' p.channels p.locTier region postcode clientIp)
    (hargs : consentArgs rt node p.channels p.locTier region postcode clientIp = .ok args) :
    (updateConsent args).Ensures Rely (Guarantee rt p.request) (fun _ _ _ => True)
      (Checked rt internalKey p.request k p.nodeId node) := by
  refine write_ensures (fun s => rfl) (fun hnode => congrArg some ((consentArgs_ok hargs).1.trans hnode))
    (fun q hkey hdb hnode hholds => ?_) fun q tombstone hkey hdb hgone => ?_
  · obtain ⟨node', hcheck, hfound⟩ := Claimed.check_ok hdb hholds
    have hnode' : node'.nodeId = node.nodeId := (Database.getNode_nodeId hfound).trans hnode.symm
    obtain ⟨args', hargs', hcall⟩ := consentArgs_call hargs hnode'
    have hprepared := hprepare q hkey
    simp only [hcheck, hargs'] at hprepared
    rw [(handle_patch rt q p).1, hprepared, App.consent]
    exact ⟨congrFun hcall q.db, rfl⟩
  · have hprepared := hprepare q hkey
    rw [Claimed.check_erased hdb hgone] at hprepared
    rw [(handle_patch rt q p).1, hprepared, App.consent]

theorem patch_ensures (p : Patch) :
    (patch rt p).Ensures Rely (Guarantee rt p.request) (fun _ _ _ => True) fun _ s => Sound internalKey s := by
  cases p with
  | byNode authorization body clientIp =>
    simp only [patch]
    cases hpresented : requireBearer rt authorization with
    | error e => trivial
    | ok presented =>
      refine (check_ensures (.token presented) body.nodeId fun s hs hholds =>
        .token _ presented rfl hpresented ((Database.getTokenHash_standing hs.2 _).trans hholds)).bind
        fun node => ?_
      cases hargs : consentArgs rt node body.channels body.locTier body.region body.postcode clientIp with
      | error e => trivial
      | ok args =>
        refine (update_ensures (p := .byNode authorization body clientIp) (fun q _ => ?_) hargs).bind fun _ =>
          .pure fun _ _ _ => trivial
        simp only [Patch.prepare, hpresented]
        rfl
  | byAccount xGwInternal nodeId contributorRef body =>
    refine (requireInternal_ensures xGwInternal).bind fun _ => .assume fun hinternal => ?_
    refine (check_ensures (.owner contributorRef) nodeId fun s hs hholds =>
      .account contributorRef rfl (by rw [hs.1]; exact hinternal)
        ((Database.getContributorRef_standing hs.2 _).trans hholds)).bind fun node => ?_
    cases hargs : consentArgs rt node body.channels body.locTier body.region body.postcode none with
    | error e => trivial
    | ok args =>
      refine (update_ensures (p := .byAccount xGwInternal nodeId contributorRef body) (fun q hq => ?_) hargs).bind
        fun _ => .pure fun _ _ _ => trivial
      simp only [Patch.prepare, hq, hinternal]
      rfl

theorem deleteByNode_ensures (authorization : Option String) (nodeId now : String) :
    (deleteByNode rt authorization nodeId now).Ensures Rely
      (Guarantee rt (.deleteNode authorization nodeId now)) (fun _ _ _ => True)
      fun _ s => Sound internalKey s := by
  simp only [deleteByNode]
  cases hpresented : requireBearer rt authorization with
  | error e => trivial
  | ok presented =>
    refine (check_ensures (.token presented) nodeId fun s hs hholds =>
      .token _ presented rfl hpresented ((Database.getTokenHash_standing hs.2 _).trans hholds)).bind
      fun node => ?_
    refine Prog.Ensures.bind (write_ensures (fun s => rfl) (fun _ => rfl) (fun q hkey hdb _ hholds => ?_)
      fun q tombstone hkey hdb hgone => ?_) fun _ => .pure fun _ _ _ => trivial
    · obtain ⟨node', hcheck, -⟩ := Claimed.check_ok hdb hholds
      have hcheck : Server.authenticateNode q.db presented nodeId = .ok node' := hcheck
      simp only [App.handle, Server.deleteNode, hpresented, hcheck]
      exact ⟨rfl, trivial⟩
    · have hcheck : Server.authenticateNode q.db presented nodeId = .error (.http 404 "unknown node") :=
        Claimed.check_erased (k := .token presented) hdb hgone
      simp only [App.handle, Server.deleteNode, hpresented, hcheck]

/-- An access to what is neither the node store nor the staging files. -/
theorem other_ensures {α : Type} {f : App → App × α} {P : Prog.Assertion App}
    (hkey : ∀ s, (f s).1.internalKey = s.internalKey) (hdb : ∀ s, (f s).1.db = s.db)
    (htree : ∀ s, (f s).1.tree = s.tree) :
    (Prog.call .other f : Route α).Ensures Rely (Guarantee rt r) (fun _ _ _ => True) P :=
  .call (fun _ _ _ _ _ _ => trivial) fun _ s _ => ⟨.quiet rfl (hkey s) (hdb s) (htree s), trivial⟩

theorem deleteByAccount_ensures (xGwInternal : Option String) (nodeId contributorRef now : String) :
    (deleteByAccount xGwInternal nodeId contributorRef now).Ensures Rely
      (Guarantee rt (.adminDeleteNode xGwInternal nodeId contributorRef now)) (fun _ _ _ => True)
      fun _ s => Sound internalKey s := by
  refine (requireInternal_ensures xGwInternal).bind fun _ => .assume fun hinternal => ?_
  refine (check_ensures (.owner contributorRef) nodeId fun s hs hholds =>
    .account contributorRef rfl (by rw [hs.1]; exact hinternal)
      ((Database.getContributorRef_standing hs.2 _).trans hholds)).bind fun node => ?_
  refine Prog.Ensures.bind (write_ensures (fun s => rfl) (fun _ => rfl) (fun q hkey hdb _ hholds => ?_)
    fun q tombstone hkey hdb hgone => ?_) fun deleted => ?_
  · obtain ⟨node', hcheck, -⟩ := Claimed.check_ok hdb hholds
    have hcheck : Server.ownedNode q.db nodeId contributorRef = .ok node' := hcheck
    simp only [App.handle, Admin.deleteNode, hkey, hinternal, hcheck]
    split <;> exact ⟨rfl, rfl⟩
  · have hcheck : Server.ownedNode q.db nodeId contributorRef = .error (.http 404 "unknown node") :=
      Claimed.check_erased (k := .owner contributorRef) hdb hgone
    simp only [App.handle, Admin.deleteNode, hkey, hinternal, hcheck]
  · cases deleted with
    | true =>
      exact (other_ensures (fun _ => rfl) (fun _ => rfl) fun _ => rfl).bind fun _ =>
        (other_ensures (fun _ => rfl) (fun _ => rfl) fun _ => rfl).bind fun _ => .pure fun _ _ _ => trivial
    | false => exact .pure fun _ _ _ => trivial

theorem ends_ensures {α : Type} (completed : Bool) (a : α) {P : Prog.Assertion App} :
    (if completed then pure a else .raise .exception : Route α).Ensures Rely (Guarantee rt r)
      (fun _ _ _ => True) P := by
  cases completed with
  | true => exact .pure fun _ _ _ => trivial
  | false => exact .raise

/-- The creation of a node, which a request on its own would make just so. -/
theorem create_ensures {now : String} {n : NewNode} (hdraw : ∃ draw, r.draw = some draw ∧ draw.nodeId = n.nodeId)
    (hserves : ∀ q : App, q.internalKey = internalKey →
      (q.handle rt r).db = (q.db.createNode now n).1 ∧ (q.handle rt r).internalKey = q.internalKey) :
    (createNode now n).Ensures Rely (Guarantee rt r) (fun _ _ _ => True) fun _ s => Sound internalKey s := by
  refine .call (fun _ _ _ _ _ _ => trivial) fun seen s hs => ⟨?_, trivial⟩
  exact
    { internalKey := rfl
      db := rfl
      serves := fun _ q hq => by
        obtain ⟨hdb, hkey⟩ := hserves q (hq.internalKey.trans hs.1)
        exact hq.call (.createNode now n) rfl hdb rfl hkey
      acts := fun id hid => by
        have hcall := Database.standing_call hs.2 (.createNode now n) id
        simp only [Database.call] at hcall
        rw [hcall] at hid
        left
        cases hst : s.db.standing id with
        | absent =>
          rw [hst, Standing.call] at hid
          refine ⟨rfl, ?_⟩
          by_cases hnew : id = n.nodeId
          · rw [hnew]
            exact hdraw
          · rw [if_neg hnew] at hid
            exact absurd rfl hid
        | live row token priv => exact absurd (by rw [hst]; rfl) hid
        | erased tombstone => exact absurd (by rw [hst]; rfl) hid
      stages := Or.inl rfl }

theorem register_ensures (body : RegisterRequest) (xGwInternal clientIp : Option String) (draw : Draw) :
    (register rt body xGwInternal clientIp draw).Ensures Rely
      (Guarantee rt (.register body xGwInternal clientIp draw)) (fun _ _ _ => True)
      fun _ s => Sound internalKey s := by
  simp only [register]
  cases hcheck : checkLocation body.locTier body.region body.postcode with
  | error e => trivial
  | ok _ =>
    split
    · next howner =>
      refine (requireInternal_ensures xGwInternal).bind fun _ => .assume fun hinternal => ?_
      refine (create_ensures ⟨draw, rfl, rfl⟩ fun q hkey => ?_).bind fun created => ends_ensures created _
      simp only [App.handle, Server.register, hcheck, howner, if_true, hkey, hinternal, and_self]
    · next howner =>
      refine Prog.Ensures.bind (Q := fun _ _ s => Sound internalKey s) (.pure fun _ _ hs => hs) fun _ => ?_
      refine (create_ensures ⟨draw, rfl, rfl⟩ fun q hkey => ?_).bind fun created => ends_ensures created _
      simp only [App.handle, Server.register, hcheck, howner, Bool.false_eq_true, if_false, and_self]

theorem put_ensures (nodeId name : String) (content : Content) {P : Prog.Assertion App} :
    (put nodeId name content).Ensures Rely (Guarantee rt r) (fun _ _ _ => True) P := by
  refine (other_ensures (fun s => ?_) (fun s => ?_) fun s => ?_).bind fun found => ends_ensures found _
  all_goals
    cases s.surveys.inbox.lookup nodeId <;> rfl

theorem stash_ensures (nodeId : String) (i : Nat) (files : List UploadFile) {P : Prog.Assertion App} :
    (stash rt nodeId i files).Ensures Rely (Guarantee rt r) (fun _ _ _ => True) P := by
  induction files generalizing i P with
  | nil => exact .pure fun _ _ _ => trivial
  | cons f files ih =>
    exact (put_ensures nodeId _ _).bind fun _ => (ih (i + 1)).bind fun _ => .pure fun _ _ _ => trivial

theorem surveyUpload_ensures (xGwInternal : Option String) (form : SurveyForm) (draw : Draw)
    (uploadedUtc : String) :
    (surveyUpload rt xGwInternal form draw uploadedUtc).Ensures Rely
      (Guarantee rt (.surveyUpload xGwInternal form draw uploadedUtc)) (fun _ _ _ => True)
      fun _ s => Sound internalKey s := by
  refine (requireInternal_ensures xGwInternal).bind fun _ => .assume fun hinternal => ?_
  split
  · exact .raise
  · next hsome =>
    split
    · exact .raise
    · next hfew =>
      cases htier : surveyTier form.locTier with
      | none => exact .raise
      | some tier =>
        dsimp only
        cases hcheck : checkLocation tier form.region form.postcode with
        | error e => trivial
        | ok _ =>
          change Prog.Ensures _ _ _ (if _ then _ else _) _
          split
          · exact .raise
          · next haccepted =>
            refine Prog.Ensures.bind (create_ensures ⟨draw, rfl, rfl⟩ fun q hkey => ?_) fun created => ?_
            · simp only [App.handle, Server.surveyUpload, hkey, hinternal, hsome, hfew, htier, hcheck, haccepted,
                if_false]
              split <;> exact ⟨rfl, rfl⟩
            · cases created with
              | true =>
                exact (other_ensures (fun _ => rfl) (fun _ => rfl) fun _ => rfl).bind fun _ =>
                  (stash_ensures draw.nodeId 0 _).bind fun stored =>
                    (put_ensures draw.nodeId _ _).bind fun _ => .pure fun _ _ _ => trivial
              | false => exact .raise

section Stage

/-- What a samples request knows once it is checked: the node as it was read, and a state in which the request
had its authority. -/
def Admitted (rt : Runtime) (internalKey : Option String) (r : Request) (node : Node) (seen : List App)
    (s : App) : Prop :=
  Sound internalKey s ∧ (∃ s₀ ∈ seen, s₀.db.getNode node.nodeId = some node) ∧
    ∃ s₁ ∈ seen, r.Authority rt s₁ node.nodeId

variable {node : Node}

theorem Admitted.later {seen : List App} {s s' : App} (h : Admitted rt internalKey r node seen s)
    (hkey : s'.internalKey = s.internalKey) (hdb : s'.db = s.db) :
    Admitted rt internalKey r node (seen ++ [s]) s' :=
  ⟨⟨hkey.trans h.1.1, hdb ▸ h.1.2⟩, exists_seen s h.2.1, exists_seen s h.2.2⟩

theorem append_lineOf {rows : List Row} (kind : Kind) (h : ∀ row ∈ rows, RowOf node kind row)
    (fault : Option AppendFault) (tree : StagingTree) :
    StagingTree.Appends (LineOf node) tree
      (StagingWriter.append rt kind kind.columns kind.tsField fault tree rows).1 := by
  intro p
  obtain ⟨new, hnew, hall⟩ := StagingWriter.append_grows rt kind kind.columns kind.tsField fault tree rows p
  refine ⟨new, hnew, fun l hl => ?_⟩
  obtain ⟨rfl, hl | ⟨row, hrow, -, hl⟩⟩ := hall l hl
  · exact Or.inl hl
  · exact Or.inr ⟨row, h row hrow, hl⟩

theorem write_rows_ensures (kind : Kind) (fault : Option AppendFault) {rows : List Row}
    (h : ∀ row ∈ rows, RowOf node kind row) :
    (write rt kind kind.columns kind.keyFields kind.tsField fault rows).Ensures Rely (Guarantee rt r)
      (fun _ => Admitted rt internalKey r node) (Admitted rt internalKey r node) := by
  have hunique : (Prog.call .other fun s : App =>
      ({ s with dedupe := (s.dedupe.filterNew kind.keyFields rows).1 },
        (s.dedupe.filterNew kind.keyFields rows).2) : Route (List Row × Nat)).Ensures Rely (Guarantee rt r)
      (fun new seen s => Admitted rt internalKey r node seen s ∧ ∀ row ∈ new.1, RowOf node kind row)
      (Admitted rt internalKey r node) :=
    .call (fun new seen s s' hrely hs => ⟨⟨hrely.sound hs.1.1, hs.1.2⟩, hs.2⟩) fun seen s hs =>
      ⟨.quiet rfl rfl rfl rfl, hs.later rfl rfl, fun row hrow => h row (Deduper.filterNew_unique_mem _ hrow)⟩
  refine hunique.bind fun (unique, dups) => .assume fun hrows => ?_
  have hstaged : (Prog.call (.stage kind unique) fun s : App =>
      let appended := StagingWriter.append rt kind kind.columns kind.tsField fault s.tree unique
      ({ s with tree := appended.1 }, appended.2) : Route Bool).Ensures Rely (Guarantee rt r)
      (fun _ => Admitted rt internalKey r node) (Admitted rt internalKey r node) := by
    refine .call (fun _ seen s s' hrely hs => ⟨hrely.sound hs.1, hs.2⟩) fun seen s hs =>
      ⟨?_, hs.later rfl rfl⟩
    exact
      { internalKey := rfl
        db := rfl
        serves := fun hwrites => by cases hwrites
        acts := fun id hid => absurd rfl hid
        stages := Or.inr ⟨node, hs.2.1, hs.2.2, append_lineOf kind hrows fault s.tree⟩ }
  refine hstaged.bind fun completed => ?_
  cases completed with
  | true => exact .pure fun _ _ hs => hs
  | false => exact .raise

theorem postSamples_ensures (c : SamplesCall) :
    (postSamples rt c).Ensures Rely (Guarantee rt (.samples c)) (fun _ _ _ => True)
      fun _ s => Sound internalKey s := by
  simp only [postSamples]
  cases hpresented : requireBearer rt c.authorization with
  | error e => trivial
  | ok presented =>
    refine (check_ensures (.token presented) c.body.nodeId fun s hs hholds =>
      .token _ presented rfl hpresented ((Database.getTokenHash_standing hs.2 _).trans hholds)).bind
      fun node => ?_
    have hallowed : (Prog.call .other fun s : App =>
        let answered := s.limiter.allow c.monotonic c.body.nodeId
          (max (c.body.electrical.length + c.body.weather.length) 1)
        ({ s with limiter := answered.1 }, answered.2) : Route Bool).Ensures Rely (Guarantee rt (.samples c))
        (fun _ => Admitted rt internalKey (.samples c) node)
        (Checked rt internalKey (.samples c) (.token presented) c.body.nodeId node) := by
      refine .call (fun _ seen s s' hrely hs => ⟨hrely.sound hs.1, hs.2⟩) fun seen s hs =>
        ⟨.quiet rfl rfl rfl rfl, Admitted.later ⟨hs.sound, ?_, ?_⟩ rfl rfl⟩
      · rw [hs.nodeId]
        exact hs.found
      · rw [hs.nodeId]
        exact hs.authority
    refine hallowed.bind fun allowed => ?_
    cases allowed with
    | false => exact .raise
    | true =>
      have helectrical : ∀ row ∈ (siftRows .electrical ElectricalRow.presentChannels (projectElectrical · node)
          node.channels 0 c.body.electrical).2, RowOf node .electrical row := by
        intro row hrow
        rw [siftRows_ok] at hrow
        have hmem : row ∈ consentedRows node c.body .electrical := hrow
        exact consentedRows_rowOf hmem
      have hweather : ∀ row ∈ (siftRows .weather WeatherRow.presentChannels (projectWeather · node)
          node.channels 0 c.body.weather).2, RowOf node .weather row := by
        intro row hrow
        rw [siftRows_ok] at hrow
        have hmem : row ∈ consentedRows node c.body .weather := hrow
        exact consentedRows_rowOf hmem
      exact (write_rows_ensures .electrical c.electricalFault helectrical).bind fun _ =>
        (write_rows_ensures .weather c.weatherFault hweather).bind fun _ => .pure fun _ _ _ => trivial

end Stage

theorem route_ensures (r : Request) :
    (r.route rt).Ensures Rely (Guarantee rt r) (fun _ _ _ => True) fun _ s => Sound internalKey s := by
  cases r with
  | register body xGwInternal clientIp draw => exact register_ensures body xGwInternal clientIp draw
  | samples c => exact postSamples_ensures c
  | updateNode authorization body clientIp => exact patch_ensures (.byNode authorization body clientIp)
  | deleteNode authorization nodeId now => exact deleteByNode_ensures authorization nodeId now
  | adminUpdateNode xGwInternal nodeId contributorRef body =>
    exact patch_ensures (.byAccount xGwInternal nodeId contributorRef body)
  | adminDeleteNode xGwInternal nodeId contributorRef now =>
    exact deleteByAccount_ensures xGwInternal nodeId contributorRef now
  | surveyUpload xGwInternal form draw uploadedUtc => exact surveyUpload_ensures xGwInternal form draw uploadedUtc

theorem rules (rt : Runtime) (internalKey : Option String) :
    Pool.Rules (Request.route rt) Rely (Guarantee rt) (Sound internalKey) where
  keep _ _ hrely hs := hrely.sound hs
  programs r := (route_ensures r).pre fun _ _ hs => hs.2
  others _ _ _ _ _ _ hguar := hguar.rely

section Once

variable (k id rt)

theorem authenticateNode_silent (presented : String) : (authenticateNode presented id).Silent Access.writes := by
  refine Prog.Silent.bind (Prog.Silent.call rfl) fun found => ?_
  cases found with
  | none => trivial
  | some node =>
    refine Prog.Silent.bind (Prog.Silent.call rfl) fun stored => ?_
    split <;> trivial

theorem ownedNode_silent (contributorRef : String) : (ownedNode id contributorRef).Silent Access.writes := by
  refine Prog.Silent.bind (Prog.Silent.call rfl) fun found => ?_
  cases found with
  | none => trivial
  | some node =>
    refine Prog.Silent.bind (Prog.Silent.call rfl) fun owner => ?_
    split <;> trivial

theorem requireInternal_silent (xGwInternal : Option String) :
    (requireInternal xGwInternal).Silent Access.writes :=
  Prog.Silent.bind (Prog.Silent.call rfl) fun checked => Prog.Silent.ofExcept checked

theorem ends_silent {α : Type} (a : α) (completed : Bool) :
    (if completed then pure a else .raise .exception : Route α).Silent Access.writes := by
  cases completed <;> trivial

theorem put_silent (nodeId name : String) (content : Content) :
    (put nodeId name content).Silent Access.writes :=
  Prog.Silent.bind (Prog.Silent.call rfl) (ends_silent _)

theorem stash_silent (nodeId : String) (i : Nat) (files : List UploadFile) :
    (stash rt nodeId i files).Silent Access.writes := by
  induction files generalizing i with
  | nil => trivial
  | cons f files ih =>
    exact (put_silent nodeId _ _).bind fun _ => (ih (i + 1)).bind fun _ => trivial

theorem write_silent (kind : Kind) (columns keyFields : List String) (tsField : String)
    (fault : Option AppendFault) (rows : List Row) :
    (write rt kind columns keyFields tsField fault rows).Silent Access.writes :=
  Prog.Silent.bind (Prog.Silent.call rfl) fun _ => Prog.Silent.bind (Prog.Silent.call rfl) (ends_silent _)

theorem patch_once (p : Patch) : (patch rt p).Once Access.writes := by
  cases p with
  | byNode authorization body clientIp =>
    refine (Prog.Silent.ofExcept _).bind_once fun presented => ?_
    refine (authenticateNode_silent _ presented).bind_once fun node => ?_
    exact (Prog.Silent.ofExcept _).bind_once fun args => Prog.Once.call_bind fun _ => trivial
  | byAccount xGwInternal nodeId contributorRef body =>
    refine (requireInternal_silent xGwInternal).bind_once fun _ => ?_
    refine (ownedNode_silent _ contributorRef).bind_once fun node => ?_
    exact (Prog.Silent.ofExcept _).bind_once fun args => Prog.Once.call_bind fun _ => trivial

/-- A handler changes the node store at most once. -/
theorem route_once (r : Request) : (r.route rt).Once Access.writes := by
  cases r with
  | register body xGwInternal clientIp draw =>
    simp only [Request.route, register]
    refine (Prog.Silent.ofExcept _).bind_once fun _ => ?_
    split
    · exact (requireInternal_silent xGwInternal).bind_once fun _ => Prog.Once.call_bind (ends_silent _)
    · exact Prog.Once.call_bind (ends_silent _)
  | samples c =>
    refine Prog.Silent.once ((Prog.Silent.ofExcept _).bind fun presented => ?_)
    refine (authenticateNode_silent _ presented).bind fun node => ?_
    refine Prog.Silent.bind (Prog.Silent.call rfl) fun allowed => ?_
    cases allowed with
    | false => trivial
    | true =>
      exact (write_silent rt _ _ _ _ _ _).bind fun _ => (write_silent rt _ _ _ _ _ _).bind fun _ => trivial
  | updateNode authorization body clientIp => exact patch_once rt (.byNode authorization body clientIp)
  | deleteNode authorization nodeId now =>
    refine (Prog.Silent.ofExcept _).bind_once fun presented => ?_
    exact (authenticateNode_silent _ presented).bind_once fun _ => Prog.Once.call_bind fun _ => trivial
  | adminUpdateNode xGwInternal nodeId contributorRef body =>
    exact patch_once rt (.byAccount xGwInternal nodeId contributorRef body)
  | adminDeleteNode xGwInternal nodeId contributorRef now =>
    refine (requireInternal_silent xGwInternal).bind_once fun _ => ?_
    refine (ownedNode_silent _ contributorRef).bind_once fun _ => Prog.Once.call_bind fun deleted => ?_
    cases deleted with
    | false => trivial
    | true => exact (Prog.Silent.call rfl).bind fun _ => (Prog.Silent.call rfl).bind fun _ => trivial
  | surveyUpload xGwInternal form draw uploadedUtc =>
    refine (requireInternal_silent xGwInternal).bind_once fun _ => ?_
    split
    · trivial
    · split
      · trivial
      · cases surveyTier form.locTier with
        | none => trivial
        | some tier =>
          refine (Prog.Silent.ofExcept _).bind_once fun _ => ?_
          dsimp only
          split
          · trivial
          · refine Prog.Once.call_bind fun created => ?_
            cases created with
            | false => trivial
            | true =>
              exact (Prog.Silent.call rfl).bind fun _ => (stash_silent rt _ _ _).bind fun _ =>
                (put_silent _ _ _).bind fun _ => trivial

end Once

end Route

section Answers

variable {rt : Runtime} {s q : App}

theorem App.Agrees.getNode (h : s.Agrees q) (id : String) : q.db.getNode id = s.db.getNode id := by
  rw [Database.getNode_standing h.left, Database.getNode_standing h.right, h.standing]

theorem App.Agrees.authenticateNode (h : s.Agrees q) (presented id : String) :
    Server.authenticateNode q.db presented id = Server.authenticateNode s.db presented id := by
  rw [Server.authenticateNode, Server.authenticateNode, h.getNode, Database.getTokenHash_standing h.right,
    Database.getTokenHash_standing h.left, h.standing]

theorem App.Agrees.ownedNode (h : s.Agrees q) (id contributorRef : String) :
    Server.ownedNode q.db id contributorRef = Server.ownedNode s.db id contributorRef := by
  rw [Server.ownedNode, Server.ownedNode, h.getNode, Database.getContributorRef_standing h.right,
    Database.getContributorRef_standing h.left, h.standing]

theorem App.Agrees.created (h : s.Agrees q) (now : String) (n : NewNode) :
    (q.db.createNode now n).2 = (s.db.createNode now n).2 := by
  rw [Bool.eq_iff_iff, Database.createNode_created h.right, Database.createNode_created h.left, h.standing]

theorem App.Agrees.deleted (h : s.Agrees q) (now id : String) :
    (q.db.deleteNode now id).2 = (s.db.deleteNode now id).2 := by
  rw [Bool.eq_iff_iff, Database.deleteNode_deleted, Database.deleteNode_deleted, ← Database.getNode_isSome,
    ← Database.getNode_isSome, h.getNode]

theorem App.Agrees.prepare (h : s.Agrees q) (p : Patch) : p.prepare rt q = p.prepare rt s := by
  cases p with
  | byNode authorization body clientIp => simp only [Patch.prepare, h.authenticateNode]
  | byAccount xGwInternal nodeId contributorRef body => simp only [Patch.prepare, h.internalKey, h.ownedNode]

/-- Servers that agree on every id answer every request but one for samples alike. -/
theorem App.Agrees.answer (h : s.Agrees q) {r : Request} (hr : ∀ c, r ≠ .samples c) :
    q.answer rt r = s.answer rt r := by
  cases r with
  | register body xGwInternal clientIp draw =>
    simp only [App.answer, register, h.internalKey, h.created]
    cases checkLocation body.locTier body.region body.postcode with
    | error e => rfl
    | ok _ =>
      dsimp only
      cases (if body.contributorRef.isSome then requireInternal s.internalKey xGwInternal else .ok ()) <;> rfl
  | samples c => exact absurd rfl (hr c)
  | updateNode authorization body clientIp =>
    have hanswer := fun s => (handle_patch rt s (.byNode authorization body clientIp)).2
    exact (hanswer q).trans (by rw [h.prepare, ← hanswer s]; rfl)
  | deleteNode authorization nodeId now =>
    simp only [App.answer, deleteNode, h.authenticateNode, h.deleted]
    cases requireBearer rt authorization with
    | error e => rfl
    | ok presented =>
      dsimp only
      cases Server.authenticateNode s.db presented nodeId <;> rfl
  | adminUpdateNode xGwInternal nodeId contributorRef body =>
    have hanswer := fun s => (handle_patch rt s (.byAccount xGwInternal nodeId contributorRef body)).2
    exact (hanswer q).trans (by rw [h.prepare, ← hanswer s]; rfl)
  | adminDeleteNode xGwInternal nodeId contributorRef now =>
    simp only [App.answer, Admin.deleteNode, h.internalKey, h.ownedNode, h.deleted]
    cases requireInternal s.internalKey xGwInternal with
    | error e => rfl
    | ok _ =>
      dsimp only
      cases Server.ownedNode s.db nodeId contributorRef with
      | error e => rfl
      | ok node =>
        dsimp only
        split <;> rfl
  | surveyUpload xGwInternal form draw uploadedUtc =>
    simp only [App.answer, surveyUpload, h.internalKey, h.created, stash_stored rt 0 _ (Option.getD _ _)]
    cases requireInternal s.internalKey xGwInternal with
    | error e => rfl
    | ok _ =>
      dsimp only
      split
      · rfl
      · split
        · rfl
        · cases surveyTier form.locTier with
          | none => rfl
          | some tier =>
            dsimp only
            cases checkLocation tier form.region form.postcode with
            | error e => rfl
            | ok _ =>
              dsimp only
              split
              · rfl
              · split <;> rfl

end Answers

namespace Threads

variable (rt : Runtime) (internalKey : Option String) (rowsPerMin : ℚ) (turns : List (Turn Request))

theorem after_safe :
    ((Threads.start internalKey rowsPerMin).after (Request.route rt) turns).Safe Route.Rely (Route.Guarantee rt)
      (Route.Sound internalKey) :=
  (Pool.start_safe ⟨rfl, Database.empty_consistent⟩).after (Route.rules rt internalKey) turns

theorem serves_agrees :
    ((Threads.start internalKey rowsPerMin).after (Request.route rt) turns).shared.Agrees
      (((Threads.start internalKey rowsPerMin).served rt turns).foldl (App.handle rt)
        (.start internalKey rowsPerMin)) :=
  (after_safe rt internalKey rowsPerMin []).serializes (Route.rules rt internalKey)
    (R := App.Agrees)
    (fun _ label _ s s' q _ hguar hwrites hq => by
      have hdb : s'.db = s.db := by
        rw [hguar.db]
        cases label with
        | db c => cases c <;> first | rfl | cases hwrites
        | stage => rfl
        | other => rfl
      exact ⟨hq.internalKey.trans hguar.internalKey.symm, hdb ▸ hq.left, hq.right, hdb ▸ hq.standing⟩)
    (fun _ _ _ _ _ q _ hguar hwrites hq => hguar.serves hwrites q hq)
    ⟨rfl, Database.empty_consistent, Database.empty_consistent, fun _ => rfl⟩ turns

/-- However the accesses of its handlers interleave, the server answers as one that handles the requests that
wrote to the node store one at a time, each once, and a node erased stays so. -/
theorem threads_serialize (later : List (Turn Request)) :
    let start := Threads.start internalKey rowsPerMin
    let s := (start.after (Request.route rt) turns).shared
    let q := (start.served rt turns).foldl (App.handle rt) (App.start internalKey rowsPerMin)
    (∀ id, s.db.standing id = q.db.standing id) ∧
      (∀ r, (∀ c, r ≠ .samples c) → s.answer rt r = q.answer rt r) ∧
      (((start.log (Request.route rt) turns).filter (·.label.writes)).map (·.key)).Nodup ∧
      ∀ id tombstone, s.db.standing id = .erased tombstone →
        (start.after (Request.route rt) (turns ++ later)).shared.db.standing id = .erased tombstone := by
  intro start s q
  have hagrees : s.Agrees q := serves_agrees rt internalKey rowsPerMin turns
  refine ⟨fun id => (hagrees.standing id).symm, fun r hr => (hagrees.answer hr).symm, ?_, fun id tombstone h => ?_⟩
  · exact Pool.once_log (Route.route_once rt) (fun key t ht => by simp [start, Threads.start] at ht) turns
  · rw [Pool.after, List.foldl_append]
    refine (after_safe rt internalKey rowsPerMin turns).keeps (Route.rules rt internalKey)
      (J := fun s => s.db.standing id = .erased tombstone) (fun s s' hs hrely hgone => ?_) h later
    obtain ⟨c, hc⟩ := hrely.called
    rw [hc, Database.standing_call hs.2, hgone, Standing.call_erased]

/-- A node's change of consent reads the node and its token; then a request to forget the node comes in, and is
about to erase it. -/
def overtakenRun : List (Turn Request) :=
  [.start 0 (.register { channels := [.frequencyHz], locTier := .region, region := some "LONDON" }
      none none ⟨"n1", "secret", "2026-07-10T08:00:00Z"⟩), .go 0,
   .start 1 (.updateNode (some "Bearer secret") { nodeId := "n1", channels := some [] } none), .go 1, .go 1,
   .start 2 (.deleteNode (some "Bearer secret") "n1" "2026-07-10T09:00:00Z"), .go 2, .go 2]

example :
    (((Threads.start none 600).log (Request.route .ascii) (overtakenRun ++ [.go 2, .go 1])).filter
      (·.label.writes)).map (·.key) = [0, 2, 1] := by
  decide +kernel

/-- So it was in a state of the run in which the thread had been started. -/
def HeldSince (s : Threads) (key : Nat) (X : App → Prop) : Prop :=
  ∃ before after, turns = before ++ after ∧ key ∈ (s.after (Request.route rt) before).threads ∧
    X (s.after (Request.route rt) before).shared

variable {turns} in
theorem heldSince_seen {s : App} {key : Nat} {t : Thread Request App Access Failure Response}
    (ht : (Pool.after (Request.route rt) ⟨s, ∅⟩ turns).threads.lookup key = some t) {X : App → Prop}
    (h : ∃ x ∈ t.seen, X x) : HeldSince rt turns ⟨s, ∅⟩ key X := by
  obtain ⟨x, hx, hX⟩ := h
  obtain ⟨before, after, t₀, rfl, rfl, ht₀, -⟩ := Pool.seen_reached _ s turns ht x hx
  exact ⟨before, after, rfl, AList.lookup_isSome.mp (by rw [ht₀]; rfl), hX⟩

/-- Every access of every interleaving that changes a node acts for a request that had authority over it in a
state since it came in, or creates it; one that stages lines stages those of a node read in such a state. -/
theorem accesses_authorised (turn : Turn Request) (e : Pool.Entry Request Access)
    (h : ((Threads.start internalKey rowsPerMin).after (Request.route rt) turns).entry turn = some e) :
    let start := Threads.start internalKey rowsPerMin
    let s := (start.after (Request.route rt) turns).shared
    let s' := (start.after (Request.route rt) (turns ++ [turn])).shared
    (∀ id, s'.db.standing id ≠ s.db.standing id →
      (s.db.standing id = .absent ∧ ∃ draw, e.origin.draw = some draw ∧ draw.nodeId = id) ∨
        HeldSince rt turns start e.key fun s₁ => e.origin.Authority rt s₁ id) ∧
      (s'.tree ≠ s.tree → ∃ node,
        (HeldSince rt turns start e.key fun s₀ => s₀.db.getNode node.nodeId = some node) ∧
          (HeldSince rt turns start e.key fun s₁ => e.origin.Authority rt s₁ node.nodeId) ∧
          StagingTree.Appends (LineOf node) s.tree s'.tree) := by
  intro start s s'
  obtain ⟨t, effect, next, htakes, horigin, hstep⟩ := Pool.entry_takes (Request.route rt) h
  have hguar := (after_safe rt internalKey rowsPerMin turns).guaranteed htakes
  have hs' : s' = effect s := by
    simp only [s', Pool.after, List.foldl_append]
    exact congrArg Pool.shared hstep
  have hseen : ∀ {X : App → Prop}, (∃ x ∈ t.seen, X x) → HeldSince rt turns start e.key X :=
    heldSince_seen rt htakes.thread
  rw [horigin] at hguar
  rw [hs']
  refine ⟨fun id hid => (hguar.acts id hid).imp_right fun hauthority => hseen hauthority, fun htree => ?_⟩
  obtain hsame | ⟨node, hfound, hauthority, happends⟩ := hguar.stages
  · exact absurd hsame htree
  · exact ⟨node, hseen hfound, hseen hauthority, happends⟩

theorem accesses_authorised_overtakenRun :
    let start := Threads.start none 600
    ∃ e, (start.after (Request.route .ascii) overtakenRun).entry (.go 2) = some e ∧ e.key = 2 ∧
      HeldSince .ascii overtakenRun start e.key fun s₁ => e.origin.Authority .ascii s₁ "n1" := by
  intro start
  have hentry : ((start.after (Request.route .ascii) overtakenRun).entry (.go 2)).map (·.key) = some 2 := by
    decide +kernel
  obtain ⟨e, he, hkey⟩ := Option.map_eq_some_iff.mp hentry
  have hacts := (accesses_authorised .ascii none 600 overtakenRun (.go 2) e he).1 "n1" (by decide +kernel)
  refine ⟨e, he, hkey, hacts.resolve_left fun habsent => ?_⟩
  exact absurd habsent.1 (by decide +kernel)

end Threads

end GridWitness.Server
