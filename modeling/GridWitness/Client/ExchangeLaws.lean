import GridWitness.Client.Coordinator

namespace GridWitness.Client

/-- What a success carries: nothing, or an object whose count of rows `int` reads. -/
def Json.Counted (py : Python) (value : Json) : Prop :=
  value.truthy = true → ∃ fields, value = .obj fields ∧
    ∃ n, ((fields.lookup "accepted").getD (.int 0)).toInt py = .ok n

theorem counted_iff {py : Python} {value : Json} :
    value.Counted py ↔ ∃ n, accepted py (if value.truthy then value else .obj []) = .ok n := by
  by_cases htruthy : value.truthy = true
  · rw [if_pos htruthy]
    cases value with
    | obj fields => simp [Json.Counted, accepted, htruthy]
    | _ => simp [Json.Counted, accepted, htruthy]
  · rw [if_neg htruthy]
    simp [Json.Counted, accepted, htruthy, Json.toInt]

namespace Exchange

/-- The exchange is one `_push_items` has an answer to: a transport error, an error status over a
body that decodes, or a body that counts rows. -/
def Handled (py : Python) : Exchange → Prop
  | .timeoutError => False
  | .clientError _ => True
  | .response _ .undecodable => False
  | .response _ .blank => True
  | .response status (.json value) => 400 ≤ status ∨ value.Counted py

def acknowledges : Exchange → Prop
  | .response status _ => 200 ≤ status ∧ status < 300
  | _ => False

def fails : Exchange → Prop
  | .response status _ => 400 ≤ status
  | _ => True

/-- The server answered, in a body that decodes, that trying again is no use. -/
def refuses : Exchange → Prop
  | .response _ .undecodable => False
  | .response status _ => 400 ≤ status ∧ status < 500 ∧ status ≠ 429
  | _ => False

variable {py : Python} {ex : Exchange}

theorem fails_of_refuses (h : ex.refuses) : ex.fails := by
  cases ex with
  | response status body => cases body <;> simp_all [refuses, fails]
  | clientError | timeoutError => trivial

theorem handled_of_refuses (h : ex.refuses) : ex.Handled py := by
  cases ex with
  | response status body => cases body <;> simp_all [refuses, Handled]
  | clientError | timeoutError => simp_all [refuses]

theorem handled_response {status : Nat} {body : Body} {value : Json}
    (h : ApiClient.decode body = .ok value) :
    (response status body).Handled py ↔ 400 ≤ status ∨ value.Counted py := by
  cases body with
  | blank =>
    cases h
    simp [Handled, Json.Counted, Json.truthy]
  | json value =>
    cases h
    rfl
  | undecodable => cases h

theorem refuses_response {status : Nat} {body : Body} {value : Json}
    (h : ApiClient.decode body = .ok value) :
    (response status body).refuses ↔ 400 ≤ status ∧ status < 500 ∧ status ≠ 429 := by
  cases body with
  | blank | json => rfl
  | undecodable => cases h

theorem pushItems_error (py : Python) {status : Nat} {body : Body} {value : Json}
    (h : ApiClient.decode body = .ok value) (hstatus : 400 ≤ status) :
    ∃ message, pushItems py (.response status body) = .error (.api ⟨message, some status⟩) := by
  simp [pushItems, ApiClient.postSamples, ApiClient.request, h, hstatus, bind, Except.bind]

theorem pushItems_success {status : Nat} {body : Body} {value : Json}
    (h : ApiClient.decode body = .ok value) (hstatus : ¬ 400 ≤ status) :
    pushItems py (.response status body) =
      (accepted py (if value.truthy then value else .obj [])).mapError .other := by
  simp only [pushItems, ApiClient.postSamples, ApiClient.request, h, hstatus, bind, Except.bind,
    if_false]
  cases value.truthy <;> rfl

end Exchange

open Exchange

/-- A push is over in one of three ways: it counted rows, it met an error the client knows of, or
another exception leaves it. -/
theorem pushItems_cases (py : Python) (ex : Exchange) :
    (∃ n, pushItems py ex = .ok n ∧ ex.Handled py ∧ ¬ ex.fails) ∨
    (∃ err, pushItems py ex = .error (.api err) ∧ ex.Handled py ∧ ex.fails ∧
      (err.retryable = false → ex.refuses)) ∨
    ∃ e, pushItems py ex = .error (.other e) ∧ ¬ ex.Handled py := by
  cases ex with
  | timeoutError => exact Or.inr (Or.inr ⟨_, rfl, id⟩)
  | clientError text => exact Or.inr (Or.inl ⟨_, rfl, trivial, trivial, nofun⟩)
  | response status body =>
    cases hdecode : ApiClient.decode body with
    | error e =>
      cases body <;> cases hdecode
      exact Or.inr (Or.inr ⟨_, rfl, id⟩)
    | ok value =>
      by_cases hstatus : 400 ≤ status
      · obtain ⟨message, hpush⟩ := pushItems_error py hdecode hstatus
        refine Or.inr (Or.inl ⟨_, hpush, (handled_response hdecode).mpr (Or.inl hstatus), hstatus,
          fun hretry => ?_⟩)
        have hfinal : status ≠ 429 ∧ status < 500 := by
          simpa [GridWitnessApiError.retryable] using hretry
        exact (refuses_response hdecode).mpr ⟨hstatus, hfinal.2, hfinal.1⟩
      · have hhandled : (response status body).Handled py ↔
            ∃ n, accepted py (if value.truthy then value else .obj []) = .ok n := by
          rw [handled_response hdecode, or_iff_right hstatus, counted_iff]
        rw [pushItems_success hdecode hstatus, hhandled]
        cases accepted py (if value.truthy then value else .obj []) with
        | ok n => exact Or.inl ⟨n, rfl, ⟨n, rfl⟩, hstatus⟩
        | error e => exact Or.inr (Or.inr ⟨e, rfl, nofun⟩)

/-- An error worth trying again is no refusal. -/
theorem not_refuses_of_retryable {py : Python} {ex : Exchange} {err : GridWitnessApiError}
    (hpush : pushItems py ex = .error (.api err)) (hretry : err.retryable = true) : ¬ ex.refuses := by
  cases ex with
  | timeoutError => exact id
  | clientError text => exact id
  | response status body =>
    cases hdecode : ApiClient.decode body with
    | error e =>
      cases body <;> cases hdecode
      exact id
    | ok value =>
      by_cases hstatus : 400 ≤ status
      · obtain ⟨message, herror⟩ := pushItems_error py hdecode hstatus
        rw [herror] at hpush
        cases hpush
        rw [refuses_response hdecode]
        simp only [GridWitnessApiError.retryable, Bool.or_eq_true, beq_iff_eq, decide_eq_true_eq]
          at hretry
        omega
      · rw [pushItems_success hdecode hstatus] at hpush
        cases haccepted : accepted py (if value.truthy then value else .obj []) with
        | ok n =>
          rw [haccepted] at hpush
          cases hpush
        | error e =>
          rw [haccepted] at hpush
          cases hpush

end GridWitness.Client
