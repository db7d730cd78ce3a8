import GridWitness.Server.OutcomeLaws
import GridWitness.Survey.WorkerLaws

namespace GridWitness.Server

open Library Survey

/-- The node whose consent a request asks to change, and to which channels. -/
def Request.consents : Request → Option (String × Option (List Channel))
  | .updateNode _ body _ => some (body.nodeId, body.channels)
  | .adminUpdateNode _ nodeId _ body => some (nodeId, body.channels)
  | _ => none

def Op.Grants (op : Op) (id : String) (c : Channel) : Prop :=
  ∃ r cs, op = .request r ∧ r.consents = some (id, some cs) ∧ c ∈ cs

/-- What a request other than a samples request changes: the survey folders, and the node store
by at most one call. -/
inductive Request.Effect (s : App) (r : Request) : App → Prop
  | refuse : Effect s r s
  | create (now : String) (n : NewNode) (surveys : Surveys) :
    Effect s r { s with db := (s.db.createNode now n).1, surveys }
  | consent (id : String) (channels : Option (List Channel)) (loc : Option Database.LocationUpdate)
      (asked : r.consents = some (id, channels)) :
    Effect s r { s with db := s.db.updateConsent id channels loc }
  | delete (now id : String) (surveys : Surveys) :
    Effect s r { s with db := (s.db.deleteNode now id).1, surveys }

theorem Patch.request_consents (p : Patch) : p.request.consents = some (p.nodeId, p.channels) := by
  cases p <;> rfl

theorem handle_effect (rt : Runtime) (s : App) (r : Request) (h : ∀ c, r ≠ .samples c) :
    r.Effect s (s.handle rt r) := by
  have houtcome := handle_outcome rt s r h
  generalize s.handle rt r = s', s.answer rt r = answer at houtcome ⊢
  cases houtcome with
  | refuse e => exact .refuse
  | create draw n loc surveys creates created => exact .create draw.now n surveys
  | collide now n refused => exact .create now n s.surveys
  | consent p args asked prepared =>
    have hasked : r.consents = some (args.nodeId, args.channels) := by
      rw [asked, p.request_consents, prepared.nodeId, prepared.channels]
    exact .consent args.nodeId args.channels args.location hasked
  | delete now id surveys => exact .delete now id surveys

theorem Request.Effect.frame {s s' : App} {r : Request} (h : r.Effect s s') :
    s'.tree = s.tree ∧ s'.dedupe = s.dedupe ∧ s'.limiter = s.limiter ∧
      s'.internalKey = s.internalKey := by
  cases h <;> exact ⟨rfl, rfl, rfl, rfl⟩

theorem postSamples_frame (rt : Runtime) (s : App) (c : SamplesCall) :
    (postSamples rt s c).1.db = s.db ∧ (postSamples rt s c).1.surveys = s.surveys ∧
      (postSamples rt s c).1.internalKey = s.internalKey := by
  rcases postSamples_cases rt s c with ⟨-, _, _, h⟩ | ⟨_, _, -, ⟨-, h⟩ | ⟨-, -, h⟩ | ⟨-, -, _, h⟩⟩ <;>
    rw [h] <;> exact ⟨rfl, rfl, rfl⟩

/-- A drain and a samples request leave the node store alone. -/
theorem step_db (rt : Runtime) (s : App) (op : Op) :
    (s.step rt op).db = s.db ∨ ∃ r, op = .request r ∧ ∀ c, r ≠ .samples c := by
  cases op with
  | drain parseFile ticks => exact Or.inl (drain_staged rt parseFile ticks s.toSite).1
  | request r =>
    by_cases hr : ∃ c, r = .samples c
    · obtain ⟨c, rfl⟩ := hr
      exact Or.inl (postSamples_frame rt s c).1
    · exact Or.inr ⟨r, rfl, not_exists.mp hr⟩

theorem step_consistent {rt : Runtime} {s : App} (hs : s.db.Consistent) (op : Op) :
    (s.step rt op).db.Consistent := by
  rcases step_db rt s op with heq | ⟨r, rfl, hr⟩
  · rw [heq]
    exact hs
  have heff := handle_effect rt s r hr
  rw [App.step]
  generalize s.handle rt r = s' at heff ⊢
  cases heff with
  | refuse => exact hs
  | create now n surveys => exact Database.createNode_consistent hs now n
  | consent j channels loc asked => exact Database.updateConsent_consistent j channels loc hs
  | delete now j surveys => exact Database.deleteNode_consistent hs now j

theorem after_consistent (rt : Runtime) (internalKey : Option String) (rowsPerMin : ℚ) (ops : List Op) :
    ((App.start internalKey rowsPerMin).after rt ops).db.Consistent :=
  Trace.foldl_invariant (I := fun s : App => s.db.Consistent) (fun _ op hs => step_consistent hs op)
    Database.empty_consistent ops

theorem step_staged (rt : Runtime) (s : App) (op : Op) :
    StagingTree.Appends (LineOfLive s.db) s.tree (s.step rt op).tree := by
  cases op with
  | drain parseFile ticks => exact (drain_staged rt parseFile ticks s.toSite).2
  | request r =>
    by_cases h : ∃ c, r = .samples c
    · obtain ⟨c, rfl⟩ := h
      exact postSamples_staged rt s c
    · rw [App.step, (handle_effect rt s r (not_exists.mp h)).frame.1]
      exact .refl

theorem step_consented (rt : Runtime) (s : App) (op : Op) :
    StagingTree.Appends (Line.Consented s.db) s.tree (s.step rt op).tree :=
  (step_staged rt s op).mono fun _ _ => LineOfLive.consented

/-- A node that exists and does not consent to a channel. -/
def Database.Withholds (db : Database) (id : String) (c : Channel) : Prop :=
  ∃ row, db.nodes.lookup id = some row ∧ c ∉ row.channels

theorem createNode_withholds {db : Database} {id : String} {c : Channel}
    (h : db.Withholds id c) (now : String) (n : NewNode) :
    (db.createNode now n).1.Withholds id c := by
  obtain ⟨row, hrow, hc⟩ := h
  refine ⟨row, ?_, hc⟩
  simp only [Database.createNode]
  split
  · exact hrow
  · next nodes hnodes =>
    obtain ⟨hfree, hlookup⟩ := Table.insertRow_eq_some hnodes
    have hne : id ≠ n.nodeId := by
      rintro rfl
      simp [hrow] at hfree
    have hkept : nodes.lookup id = some row := by rw [hlookup, if_neg hne, hrow]
    split
    · exact hkept
    · split <;> exact hkept

theorem updateConsent_withholds {db : Database} {id j : String} {c : Channel}
    (h : db.Withholds id c) {channels : Option (List Channel)}
    {loc : Option Database.LocationUpdate} (hkeep : j = id → ∀ cs ∈ channels, c ∉ cs) :
    (db.updateConsent j channels loc).Withholds id c := by
  obtain ⟨row, hrow, hc⟩ := h
  rw [Database.Withholds, Database.lookup_updateConsent]
  by_cases hid : id = j
  · subst hid
    refine ⟨Database.consentRow channels loc row, by simp [hrow], ?_⟩
    cases channels with
    | none => exact hc
    | some cs => simpa [Database.consentRow] using hkeep rfl cs rfl
  · exact ⟨row, by rw [if_neg hid, hrow], hc⟩

theorem deleteNode_withholds {db : Database} {id : String} {c : Channel}
    (h : db.Withholds id c) (now j : String) : (db.deleteNode now j).1.Withholds id c := by
  rcases Database.deleteNode_cases db now j with ⟨heq, -⟩ | ⟨heq, -⟩
  · rwa [heq]
  · obtain ⟨row, hrow, hc⟩ := h
    rw [heq, Database.Withholds]
    simp only [Database.erase, Table.lookup_updateRow]
    by_cases hid : id = j
    · subst hid
      exact ⟨{ row with deletedUtc := some now }, by simp [hrow], hc⟩
    · exact ⟨row, by rw [if_neg hid, hrow], hc⟩

theorem step_withholds {rt : Runtime} {s : App} {op : Op} {id : String} {c : Channel}
    (h : s.db.Withholds id c) (hop : ¬ op.Grants id c) : (s.step rt op).db.Withholds id c := by
  rcases step_db rt s op with heq | ⟨r, rfl, hr⟩
  · rw [heq]
    exact h
  have heff := handle_effect rt s r hr
  rw [App.step]
  revert heff
  generalize s.handle rt r = s'
  intro heff
  cases heff with
  | refuse => exact h
  | create now n surveys => exact createNode_withholds h now n
  | consent j channels loc asked =>
    refine updateConsent_withholds h ?_
    rintro rfl cs rfl hcs
    exact hop ⟨r, cs, rfl, asked, hcs⟩
  | delete now j surveys => exact deleteNode_withholds h now j

/-- A channel is not staged for a node while it is withheld. -/
theorem step_withheld {rt : Runtime} {s : App} {op : Op} {id : String} {c : Channel}
    (h : s.db.Withholds id c) :
    StagingTree.Appends
      (fun kind l => l.get kind "node_id" = .text id → l.get kind c.name = .null)
      s.tree (s.step rt op).tree := by
  obtain ⟨row, hrow, hc⟩ := h
  apply (step_consented rt s op).mono
  rintro kind l ⟨node, hnode, hid, hchannels⟩ hline
  rw [hline] at hid
  cases hid
  by_contra hvalue
  have hconsent : c ∈ node.channels := hchannels c hvalue
  simp only [Database.getNode, hrow] at hnode
  split at hnode
  · rw [← Option.some.inj hnode] at hconsent
    exact hc hconsent
  · cases hnode

/-- Consent is enforced on everything staged: over every history, each appended row is a row of
a node that is live at that moment, within its consent at that moment; and from the operation
that removes a channel on, no value of it is staged for the node. -/
theorem consent_enforced (rt : Runtime) (internalKey : Option String) (rowsPerMin : ℚ)
    (ops : List Op) :
    let s := (App.start internalKey rowsPerMin).after rt ops
    (∀ op, StagingTree.Appends (Line.Consented s.db) s.tree (s.step rt op).tree) ∧
    ∀ id c, s.db.Withholds id c → ∀ later, (∀ op ∈ later, ¬ Op.Grants op id c) →
      StagingTree.Appends
        (fun kind l => l.get kind "node_id" = .text id → l.get kind c.name = .null)
        s.tree (s.after rt later).tree := by
  intro s
  refine ⟨step_consented rt s, ?_⟩
  intro id c hs later
  clear_value s
  induction later generalizing s with
  | nil => exact fun _ => .refl
  | cons op later ih =>
    intro hlater
    obtain ⟨hop, hrest⟩ := List.forall_mem_cons.mp hlater
    exact (step_withheld hs).trans (ih (s.step rt op) (step_withholds hs hop) hrest)

end GridWitness.Server
