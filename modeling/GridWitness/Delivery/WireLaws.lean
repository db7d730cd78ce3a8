import GridWitness.Client.BufferLaws
import GridWitness.Client.ExchangeLaws
import GridWitness.Delivery.Session
import GridWitness.Server.LedgerLaws

namespace GridWitness.Delivery

open Client Server

universe u

variable {Line : Type u}

/-- The server's validation of one captured row. -/
def valid (pyd : Pydantic) : Captured → Bool
  | (.electrical, row) => (electricalRow pyd row).isSome
  | (.weather, row) => (weatherRow pyd row).isSome

/-- The row the server files for a captured one that is valid and consented. -/
def filed (pyd : Pydantic) (node : Node) : Captured → Option (Kind × Row)
  | (.electrical, row) =>
    ((electricalRow pyd row).filter fun e => e.presentChannels.all (· ∈ node.channels)).map fun e =>
      (.electrical, projectElectrical e node)
  | (.weather, row) =>
    ((weatherRow pyd row).filter fun w => w.presentChannels.all (· ∈ node.channels)).map fun w =>
      (.weather, projectWeather w node)

theorem valid_of_filed {pyd : Pydantic} {node : Node} {r : Captured}
    (h : (filed pyd node r).isSome) : valid pyd r = true := by
  obtain ⟨kind, row⟩ := r
  cases kind with
  | electrical =>
    rw [filed, Option.isSome_map] at h
    exact Option.isSome_of_isSome_filter _ _ h
  | weather =>
    rw [filed, Option.isSome_map] at h
    exact Option.isSome_of_isSome_filter _ _ h

theorem filed_kind {pyd : Pydantic} {node : Node} {r : Captured} {y : Kind × Row}
    (h : filed pyd node r = some y) : y.1 = r.1 := by
  obtain ⟨kind, row⟩ := r
  cases kind with
  | electrical =>
    obtain ⟨e, -, rfl⟩ := Option.map_eq_some_iff.mp h
    rfl
  | weather =>
    obtain ⟨w, -, rfl⟩ := Option.map_eq_some_iff.mp h
    rfl

theorem rowsOf_items (kind : Kind) (rs : List Captured) :
    rowsOf kind (rs.map Captured.item) = (rs.filter (·.1 = kind)).map (·.2) := by
  have hvalue : ∀ k : Kind, k.value = kind.value ↔ k = kind := by
    intro k
    cases k <;> cases kind <;> decide
  induction rs with
  | nil => rfl
  | cons r rs ih =>
    rw [rowsOf] at ih ⊢
    rw [List.map_cons, List.filterMap_cons, List.filter_cons, ih]
    by_cases hkind : r.1 = kind
    · simp [Captured.item, hkind]
    · simp [Captured.item, hvalue, hkind]

section Request

variable (pyd : Pydantic) (rs : List Captured)

def electricals : List ElectricalRow :=
  ((rs.filter (·.1 = .electrical)).map (·.2)).filterMap (electricalRow pyd)

def weathers : List WeatherRow :=
  ((rs.filter (·.1 = .weather)).map (·.2)).filterMap (weatherRow pyd)

/-- A body is valid when every row of it is. -/
theorem validated_items (k : Link Line) :
    (k.request (rs.map Captured.item)).validated pyd =
      if rs.all (valid pyd) then
        some { nodeId := k.nodeId, electrical := electricals pyd rs, weather := weathers pyd rs }
      else none := by
  have hall : (((rs.filter (·.1 = .electrical)).map (·.2)).all (electricalRow pyd · |>.isSome) &&
      ((rs.filter (·.1 = .weather)).map (·.2)).all (weatherRow pyd · |>.isSome)) =
      rs.all (valid pyd) := by
    induction rs with
    | nil => rfl
    | cons r rs ih =>
      obtain ⟨kind, row⟩ := r
      rw [List.all_cons, ← ih]
      cases kind with
      | electrical => simp [valid, Bool.and_assoc]
      | weather => simp [valid, Bool.and_left_comm]
  rw [Post.validated]
  simp only [Link.request, rowsOf_items, hall]
  rfl

variable {pyd rs}

/-- Sifting the rows of one kind is filing all rows and keeping those of the kind. -/
theorem sift_eq_ofKind {kind : Kind} {ρ : Type} {parse : Json → Option ρ} {ok : ρ → Bool}
    {project : ρ → Row} {f : Captured → Option (Kind × Row)} (hkind : ∀ r, ∀ y ∈ f r, y.1 = r.1)
    (hfile : ∀ row, f (kind, row) = ((parse row).filter ok).map fun e => (kind, project e)) :
    ((((rs.filter (·.1 = kind)).map (·.2)).filterMap parse).filter ok).map project =
      ofKind kind (rs.filterMap f) := by
  rw [ofKind]
  induction rs with
  | nil => rfl
  | cons r rs ih =>
    obtain ⟨kind', row⟩ := r
    by_cases h : kind' = kind
    · subst h
      cases hparse : parse row with
      | none => simpa [hfile, hparse] using ih
      | some e =>
        by_cases hok : ok e = true
        · simpa [hfile, hparse, hok, Option.filter] using ih
        · simpa [hfile, hparse, hok, Option.filter] using ih
    · cases hf : f (kind', row) with
      | none => simpa [hf, h] using ih
      | some y =>
        have hy : y.1 ≠ kind := fun heq => h ((hkind _ y hf).symm.trans heq)
        simpa [hf, h, hy] using ih

theorem consentedRows_items (k : Link Line) (node : Node) (kind : Kind) :
    consentedRows node
        { nodeId := k.nodeId, electrical := electricals pyd rs, weather := weathers pyd rs } kind =
      ofKind kind (rs.filterMap (filed pyd node)) := by
  cases kind with
  | electrical => exact sift_eq_ofKind (fun r y hy => filed_kind hy) fun row => rfl
  | weather => exact sift_eq_ofKind (fun r y hy => filed_kind hy) fun row => rfl

end Request

section Serve

variable {k : Link Line} {node : Node} {s : App} {rs : List Captured} {monotonic : ℚ}
  {lost : Option Exchange}

/-- The server knows the node by the token of the client. -/
def Known (k : Link Line) (node : Node) (s : App) : Prop :=
  ∃ presented, requireBearer k.rt k.authorization = .ok presented ∧
    authenticateNode s.db presented k.nodeId = .ok node

theorem Known.admitted (h : Known k node s) {c : SamplesCall}
    (hauthorization : c.authorization = k.authorization) (hid : c.body.nodeId = k.nodeId) :
    (s.admitted k.rt c = some node) ∨
      s.admitted k.rt c = none ∧ ∃ limiter, postSamples k.rt s c =
        (s.withWriter limiter s.writer, .error (.http 429 "rate limit exceeded")) := by
  obtain ⟨presented, hbearer, hnode⟩ := h
  rw [← hauthorization] at hbearer
  rw [← hid] at hnode
  simp only [App.admitted, postSamples, hbearer, hnode]
  generalize s.limiter.allow c.monotonic c.body.nodeId _ = outcome
  obtain ⟨limiter, _ | _⟩ := outcome
  · exact Or.inr ⟨rfl, limiter, rfl⟩
  · exact Or.inl rfl

/-- A request with an invalid row is turned down whole. -/
theorem post_invalid (h : Known k node s) (hinvalid : rs.all (valid k.pydantic) = false) :
    k.post s (rs.map Captured.item) (.processed monotonic lost) =
      (s, [], lost.getD (validationExc k.pydantic (k.request (rs.map Captured.item)))) := by
  obtain ⟨presented, hbearer, -⟩ := h
  have hnone : (k.request (rs.map Captured.item)).validated k.pydantic = none := by
    rw [validated_items, hinvalid]
    rfl
  simp only [Link.post, serve, Link.brought, hnone]
  rw [show (k.request (rs.map Captured.item)).authorization = k.authorization from rfl, hbearer]

theorem brought_of_validated (k : Link Line) (s : App) {p : Post} (monotonic : ℚ)
    {body : SamplesRequest} (hbody : p.validated k.pydantic = some body) :
    k.brought s p monotonic =
      (s.admitted k.rt { authorization := p.authorization, body, monotonic }).elim [] fun node =>
        (consentedRows node body .electrical).map (.electrical, ·) ++
          (consentedRows node body .weather).map (.weather, ·) := by
  simp only [Link.brought, hbody]
  cases s.admitted k.rt { authorization := p.authorization, body, monotonic } <;> rfl

/-- A request of valid rows is limited, or its consented rows are written. -/
theorem post_valid (h : Known k node s) (hvalid : rs.all (valid k.pydantic) = true) :
    let ys := rs.filterMap (filed k.pydantic node)
    let e := StagingWriter.writeKind k.rt .electrical none s.writer (ofKind .electrical ys)
    let w := StagingWriter.writeKind k.rt .weather none e.1 (ofKind .weather ys)
    let out := k.post s (rs.map Captured.item) (.processed monotonic lost)
    (∃ limiter, out = (s.withWriter limiter s.writer, [],
        lost.getD (answer (.error (.http 429 "rate limit exceeded"))))) ∨
      out.2.1 = byKind ys ∧ (e.2.isSome → w.2.isSome → ∃ limiter resp,
        out.1 = s.withWriter limiter w.1 ∧ out.2.2 = lost.getD (answer (.ok resp))) := by
  intro ys e w out
  obtain ⟨presented, hbearer, -⟩ := id h
  have hbody := validated_items k.pydantic rs k
  rw [hvalid, if_pos rfl] at hbody
  let body : SamplesRequest :=
    { nodeId := k.nodeId, electrical := electricals k.pydantic rs, weather := weathers k.pydantic rs }
  let c : SamplesCall := { authorization := k.authorization, body, monotonic }
  have hout : out = ((postSamples k.rt s c).1, k.brought s (k.request (rs.map Captured.item)) monotonic,
      lost.getD (answer (postSamples k.rt s c).2)) := by
    simp only [out, Link.post, serve, hbody]
    rw [show (k.request (rs.map Captured.item)).authorization = k.authorization from rfl, hbearer]
  have hbrought : k.brought s (k.request (rs.map Captured.item)) monotonic =
      (s.admitted k.rt c).elim [] fun node =>
        (consentedRows node body .electrical).map (.electrical, ·) ++
          (consentedRows node body .weather).map (.weather, ·) :=
    brought_of_validated k s monotonic hbody
  rcases h.admitted (c := c) rfl rfl with hadmitted | ⟨hadmitted, limiter, hlimited⟩
  · have hrows : ∀ kind, consentedRows node c.body kind = ofKind kind ys :=
      consentedRows_items k node
    rcases postSamples_cases k.rt s c with ⟨hnone, -⟩ | ⟨node', limiter, hnode', hwrites⟩
    · rw [hadmitted] at hnone
      cases hnone
    · obtain rfl : node = node' := Option.some.inj (hadmitted.symm.trans hnode')
      simp only [hrows] at hwrites
      refine Or.inr ⟨?_, fun he hw => ?_⟩
      · rw [hout, hbrought, hadmitted, Option.elim_some]
        rw [show consentedRows node body = consentedRows node c.body from rfl, hrows, hrows,
          ofKind_map, ofKind_map, byKind]
      · rcases hwrites with ⟨hnone, -⟩ | ⟨-, hnone, -⟩ | ⟨-, -, resp, hpost⟩
        · rw [show e.2 = none from hnone] at he
          cases he
        · rw [show w.2 = none from hnone] at hw
          cases hw
        · exact ⟨limiter, resp, by rw [hout, hpost]; exact ⟨rfl, rfl⟩⟩
  · refine Or.inl ⟨limiter, ?_⟩
    rw [hout, hlimited, hbrought, hadmitted, Option.elim_none]

end Serve

end GridWitness.Delivery
