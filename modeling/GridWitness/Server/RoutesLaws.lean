import GridWitness.Server.History
import GridWitness.Server.StagingLaws

namespace GridWitness.Server

open Library Survey

theorem siftRows_ok {ρ : Type} (kind : Kind) (present : ρ → List Channel) (project : ρ → Row)
    (consented : List Channel) (i : Nat) (rows : List ρ) :
    (siftRows kind present project consented i rows).2 =
      (rows.filter fun row => (present row).all (· ∈ consented)).map project := by
  induction rows generalizing i with
  | nil => rfl
  | cons row rows ih =>
    have hiff : (present row).filter (· ∉ consented) = [] ↔
        (present row).all (· ∈ consented) = true := by
      simp [List.filter_eq_nil_iff]
    simp only [siftRows, List.filter_cons]
    split
    · next h => simp [hiff.mp h, ih]
    · next h => simp only [Bool.not_eq_true _ ▸ mt hiff.mpr h, ih]; rfl

/-- The projected rows of a request that pass the consent check, by kind. -/
def consentedRows (node : Node) (body : SamplesRequest) : Kind → List Row
  | .electrical =>
    (body.electrical.filter fun row => row.presentChannels.all (· ∈ node.channels)).map
      (projectElectrical · node)
  | .weather =>
    (body.weather.filter fun row => row.presentChannels.all (· ∈ node.channels)).map
      (projectWeather · node)

def App.withWriter (s : App) (limiter : RateLimiter) (w : StagingWriter) : App :=
  { s with limiter, tree := w.tree, dedupe := w.dedupe }

def App.writer (s : App) : StagingWriter := ⟨s.tree, s.dedupe⟩

/-- The node a samples request writes for; none when it is refused before it writes. -/
def App.admitted (rt : Runtime) (s : App) (c : SamplesCall) : Option Node :=
  match requireBearer rt c.authorization with
  | .error _ => none
  | .ok presented =>
    match authenticateNode s.db presented c.body.nodeId with
    | .error _ => none
    | .ok node =>
      let rows := c.body.electrical.length + c.body.weather.length
      if (s.limiter.allow c.monotonic c.body.nodeId (max rows 1)).2 then some node else none

theorem authenticateNode_ok {db : Database} {presented id : String} {node : Node}
    (h : authenticateNode db presented id = .ok node) : db.getNode id = some node := by
  simp only [authenticateNode] at h
  split at h
  · cases h
  · next hnode =>
    split at h
    · cases h
      exact hnode
    · cases h

theorem ownedNode_ok {db : Database} {id contributorRef : String} {node : Node}
    (h : ownedNode db id contributorRef = .ok node) : db.getNode id = some node := by
  simp only [ownedNode] at h
  split at h
  · cases h
  · next hnode =>
    split at h
    · cases h
      exact hnode
    · cases h

theorem App.admitted_live {rt : Runtime} {s : App} {c : SamplesCall} {node : Node}
    (h : s.admitted rt c = some node) : s.db.getNode c.body.nodeId = some node := by
  simp only [admitted] at h
  split at h
  · cases h
  · split at h
    · cases h
    · next hauth =>
      split at h
      · cases h
        exact authenticateNode_ok hauth
      · cases h

/-- How a samples request goes: refused before it writes, or one write for each kind, the second
only when the first completes. -/
theorem postSamples_cases (rt : Runtime) (s : App) (c : SamplesCall) :
    (s.admitted rt c = none ∧
      ∃ limiter e, postSamples rt s c = (s.withWriter limiter s.writer, .error e)) ∨
    ∃ node limiter, s.admitted rt c = some node ∧
      let e := StagingWriter.writeElectrical rt c.electricalFault s.writer
        (consentedRows node c.body .electrical)
      let w := StagingWriter.writeWeather rt c.weatherFault e.1
        (consentedRows node c.body .weather)
      (e.2 = none ∧ postSamples rt s c = (s.withWriter limiter e.1, .error .exception)) ∨
      (e.2.isSome ∧ w.2 = none ∧
        postSamples rt s c = (s.withWriter limiter w.1, .error .exception)) ∨
      (e.2.isSome ∧ w.2.isSome ∧ ∃ resp,
        postSamples rt s c = (s.withWriter limiter w.1, .ok resp)) := by
  simp only [postSamples, App.admitted]
  cases requireBearer rt c.authorization with
  | error e => exact Or.inl ⟨rfl, s.limiter, e, rfl⟩
  | ok presented =>
    dsimp only
    cases authenticateNode s.db presented c.body.nodeId with
    | error e => exact Or.inl ⟨rfl, s.limiter, e, rfl⟩
    | ok node =>
      dsimp only
      generalize s.limiter.allow c.monotonic c.body.nodeId _ = outcome
      obtain ⟨limiter, _ | _⟩ := outcome
      · exact Or.inl ⟨rfl, limiter, _, rfl⟩
      · refine Or.inr ⟨node, limiter, rfl, ?_⟩
        simp only [Bool.not_true, Bool.false_eq_true, if_false, siftRows_ok, consentedRows,
          App.writer]
        generalize StagingWriter.writeElectrical rt c.electricalFault _ _ = e
        obtain ⟨we, _ | counts⟩ := e
        · exact Or.inl ⟨rfl, rfl⟩
        · refine Or.inr ?_
          simp only [Option.isSome_some, true_and]
          generalize StagingWriter.writeWeather rt c.weatherFault _ _ = w
          obtain ⟨ww, _ | counts⟩ := w
          · exact Or.inl ⟨rfl, rfl⟩
          · exact Or.inr ⟨rfl, _, rfl⟩

end GridWitness.Server
