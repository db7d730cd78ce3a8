import GridWitness.Library.Trace
import GridWitness.Server.LimiterLaws
import GridWitness.Server.OwnershipLaws

namespace GridWitness.Server

open Library Survey

namespace RateLimiter

/-- Two limiters that no call after the last reading of the clock can tell apart: one below zero lets no call
through, whatever its buckets hold. -/
structure Alike (last : Option ℚ) (l l' : RateLimiter) : Prop where
  capacity : l'.capacity = l.capacity
  refillPerSec : l'.refillPerSec = l.refillPerSec
  refilled : 0 ≤ l.capacity → ∀ node t, (∀ u ∈ last, u ≤ t) → l'.refilled t node = l.refilled t node

variable {l l' : RateLimiter} {last : Option ℚ} {now : ℚ} {nodeId : String} {rows : Nat}

theorem Alike.refl (last : Option ℚ) (l : RateLimiter) : l.Alike last l :=
  ⟨rfl, rfl, fun _ _ _ _ => rfl⟩

theorem Alike.later (h : l.Alike last l') (hlast : ∀ u ∈ last, u ≤ now) : l.Alike (some now) l' :=
  ⟨h.capacity, h.refillPerSec, fun hopen node t ht =>
    h.refilled hopen node t fun u hu => (hlast u hu).trans (ht now rfl)⟩

theorem refill_refilled (hrate : 0 ≤ l.refillPerSec) {t : ℚ} (ht : now ≤ t) :
    (l.refilled now nodeId).refill l.capacity l.refillPerSec t = l.refilled t nodeId := by
  simp only [RateLimiter.refilled]
  cases l.bucket nodeId with
  | none => exact TokenBucket.full_refill hrate ht
  | some b => exact TokenBucket.refill_refill hrate b ht

/-- A bucket a call does not touch is refilled as before. -/
theorem refilled_frame {node : String} (hnode : node ≠ nodeId) (t : ℚ) :
    (l.allow now nodeId rows).1.refilled t node = l.refilled t node := by
  have served := l.allow_served now nodeId rows
  simp only [RateLimiter.refilled, served.frame node hnode, served.capacity, served.refillPerSec]

theorem allow_refilled (l : RateLimiter) (now : ℚ) (nodeId : String) (rows : Nat) :
    (l.allow now nodeId rows).2 = decide ((rows : ℚ) ≤ (l.refilled now nodeId).tokens) ∧
      (l.allow now nodeId rows).1.bucket nodeId =
        some (if (l.allow now nodeId rows).2 then ⟨(l.refilled now nodeId).tokens - rows, now⟩
          else l.refilled now nodeId) := by
  have served := l.allow_served now nodeId rows
  rw [served.bucket, served.answer, TokenBucket.request, TokenBucket.take]
  simp only [RateLimiter.refilled]
  split
  · next hfew => simp [not_le.mpr hfew]
  · next hmany => simp [not_lt.mp hmany]

theorem allow_closed (h : ¬ 0 ≤ l.capacity) (now : ℚ) (nodeId : String) (rows : Nat) :
    (l.allow now nodeId rows).2 = false := by
  rw [(l.allow_refilled now nodeId rows).1, decide_eq_false_iff_not]
  intro hroom
  have hfull : (l.refilled now nodeId).tokens ≤ l.capacity := min_le_left _ _
  exact h ((Nat.cast_nonneg rows).trans (hroom.trans hfull))

theorem refilled_own {t : ℚ} {b : TokenBucket ℚ}
    (h : (l.allow now nodeId rows).1.bucket nodeId = some b) :
    (l.allow now nodeId rows).1.refilled t nodeId = b.refill l.capacity l.refillPerSec t := by
  have served := l.allow_served now nodeId rows
  simp only [RateLimiter.refilled, h, Option.getD_some, served.capacity, served.refillPerSec]

theorem Alike.answer (h : l.Alike last l') (hlast : ∀ u ∈ last, u ≤ now) (nodeId : String) (rows : Nat) :
    (l'.allow now nodeId rows).2 = (l.allow now nodeId rows).2 := by
  by_cases hopen : 0 ≤ l.capacity
  · rw [(l'.allow_refilled now nodeId rows).1, (l.allow_refilled now nodeId rows).1,
      h.refilled hopen nodeId now hlast]
  · rw [allow_closed hopen, allow_closed (h.capacity ▸ hopen)]

/-- A call leaves limiters that are alike. -/
theorem Alike.allow (h : l.Alike last l') (hlast : ∀ u ∈ last, u ≤ now) (nodeId : String) (rows : Nat) :
    (l.allow now nodeId rows).1.Alike (some now) (l'.allow now nodeId rows).1 := by
  have served := l.allow_served now nodeId rows
  have served' := l'.allow_served now nodeId rows
  refine ⟨?_, ?_, fun hopen node t ht => ?_⟩
  · rw [served'.capacity, served.capacity, h.capacity]
  · rw [served'.refillPerSec, served.refillPerSec, h.refillPerSec]
  · rw [served.capacity] at hopen
    by_cases hnode : node = nodeId
    · subst hnode
      have hbucket' := (l'.allow_refilled now node rows).2
      rw [h.refilled hopen node now hlast, h.answer hlast] at hbucket'
      rw [refilled_own hbucket', refilled_own (l.allow_refilled now node rows).2, h.capacity, h.refillPerSec]
    · rw [refilled_frame hnode, refilled_frame hnode, (h.later hlast).refilled hopen node t ht]

/-- A refused call leaves a limiter that is alike the one it found. -/
theorem Alike.refused (h : l.Alike last l') (hrate : 0 ≤ l.capacity → 0 ≤ l.refillPerSec)
    (hlast : ∀ u ∈ last, u ≤ now) (hrefused : (l.allow now nodeId rows).2 = false) :
    (l.allow now nodeId rows).1.Alike (some now) l' := by
  obtain ⟨-, hbucket⟩ := l.allow_refilled now nodeId rows
  rw [hrefused] at hbucket
  have served := l.allow_served now nodeId rows
  refine ⟨h.capacity.trans served.capacity.symm, h.refillPerSec.trans served.refillPerSec.symm,
    fun hopen node t ht => ?_⟩
  rw [served.capacity] at hopen
  rw [(h.later hlast).refilled hopen node t ht]
  by_cases hnode : node = nodeId
  · subst hnode
    rw [refilled_own hbucket]
    exact (refill_refilled (hrate hopen) (ht now rfl)).symm
  · exact (refilled_frame hnode t).symm

end RateLimiter

/-- A request refused with a status, rather than cut short by an exception. -/
def App.refuses (rt : Runtime) (s : App) : ServerStep → Bool
  | .op (.request r) =>
    match s.answer rt r with
    | .error (.http _ _) => true
    | _ => false
  | _ => false

/-- What a client receives. -/
def App.reply (rt : Runtime) (s : App) : ServerStep → Option (Except Failure Response)
  | .op (.request r) => some (s.answer rt r)
  | _ => none

/-- The clock of each process does not go back. -/
def Steady : Option ℚ → List ServerStep → Prop
  | _, [] => True
  | last, .op (.request (.samples c)) :: steps =>
    (∀ u ∈ last, u ≤ c.monotonic) ∧ Steady (some c.monotonic) steps
  | last, .op _ :: steps => Steady last steps
  | _, .restart :: steps => Steady none steps

theorem steady_request {last : Option ℚ} {r : Request} (h : ∀ c, r ≠ .samples c) (steps : List ServerStep) :
    Steady last (.op (.request r) :: steps) ↔ Steady last steps := by
  cases r with
  | samples c => exact absurd rfl (h c)
  | _ => rfl

def App.withLimiter (s : App) (limiter : RateLimiter) : App := { s with limiter }

variable {rt : Runtime} {s s' : App} {last : Option ℚ}

/-- A handler that neither reads nor writes the limiter. -/
def Unlimited {β : Type} (handler : App → App × Except Failure β) : Prop :=
  ∀ s l, handler (s.withLimiter l) = ((handler s).1.withLimiter l, (handler s).2) ∧
    (handler s).1.limiter = s.limiter

theorem register_unlimited (body : RegisterRequest) (xGwInternal clientIp : Option String) (draw : Draw) :
    Unlimited fun s => register rt s body xGwInternal clientIp draw := by
  intro s l
  simp only [register, App.withLimiter]
  split
  · exact ⟨rfl, rfl⟩
  · split <;> exact ⟨rfl, rfl⟩

theorem changeConsent_unlimited (node : Node) (channels : Option (List Channel)) (locTier : Option LocTier)
    (region postcode clientIp : Option String) :
    Unlimited fun s => changeConsent rt s node channels locTier region postcode clientIp := by
  intro s l
  cases locTier with
  | none => exact ⟨rfl, rfl⟩
  | some tier =>
    simp only [changeConsent]
    split <;> exact ⟨rfl, rfl⟩

theorem updateNode_unlimited (authorization : Option String) (body : ConsentUpdate)
    (clientIp : Option String) : Unlimited fun s => updateNode rt s authorization body clientIp := by
  intro s l
  simp only [updateNode, App.withLimiter]
  split
  · exact ⟨rfl, rfl⟩
  · split
    · exact ⟨rfl, rfl⟩
    · exact changeConsent_unlimited _ _ _ _ _ _ s l

theorem deleteNode_unlimited (authorization : Option String) (nodeId now : String) :
    Unlimited fun s => deleteNode rt s authorization nodeId now := by
  intro s l
  simp only [deleteNode, App.withLimiter]
  split
  · exact ⟨rfl, rfl⟩
  · split <;> exact ⟨rfl, rfl⟩

theorem adminUpdateNode_unlimited (xGwInternal : Option String) (nodeId contributorRef : String)
    (body : AdminConsentUpdate) :
    Unlimited fun s => Admin.updateNode rt s xGwInternal nodeId contributorRef body := by
  intro s l
  simp only [Admin.updateNode, App.withLimiter]
  split
  · exact ⟨rfl, rfl⟩
  · split
    · exact ⟨rfl, rfl⟩
    · exact changeConsent_unlimited _ _ _ _ _ _ s l

theorem adminDeleteNode_unlimited (xGwInternal : Option String) (nodeId contributorRef now : String) :
    Unlimited fun s => Admin.deleteNode s xGwInternal nodeId contributorRef now := by
  intro s l
  simp only [Admin.deleteNode, App.withLimiter]
  split
  · exact ⟨rfl, rfl⟩
  · split
    · exact ⟨rfl, rfl⟩
    · by_cases hdeleted : (s.db.deleteNode now nodeId).2 = true
      · simp only [hdeleted, if_true, and_self]
      · simp only [hdeleted, Bool.false_eq_true, if_false, and_self]

theorem surveyUpload_unlimited (xGwInternal : Option String) (form : SurveyForm) (draw : Draw)
    (uploadedUtc : String) : Unlimited fun s => surveyUpload rt s xGwInternal form draw uploadedUtc := by
  intro s l
  simp only [surveyUpload, App.withLimiter]
  split
  · exact ⟨rfl, rfl⟩
  · split
    · exact ⟨rfl, rfl⟩
    · split
      · exact ⟨rfl, rfl⟩
      · split
        · exact ⟨rfl, rfl⟩
        · split
          · exact ⟨rfl, rfl⟩
          · split
            · exact ⟨rfl, rfl⟩
            · next tier _ _ _ _ =>
              by_cases hcreated : (s.db.createNode draw.now (surveyNode rt form tier
                  (resolveLocation rt tier form.postcode form.region none none) draw)).2 = true
              · simp only [hcreated, Bool.not_true, Bool.false_eq_true, if_false, and_self]
              · simp only [hcreated, Bool.not_false, if_true, and_self]

/-- Only a samples request looks at the limiter. -/
theorem handle_withLimiter (rt : Runtime) (s : App) (l : RateLimiter) {r : Request} (h : ∀ c, r ≠ .samples c) :
    (s.withLimiter l).handle rt r = (s.handle rt r).withLimiter l ∧
      (s.withLimiter l).answer rt r = s.answer rt r ∧ (s.handle rt r).limiter = s.limiter := by
  suffices ∀ {β : Type} {handler : App → App × Except Failure β} (body : β → Response), Unlimited handler →
      (handler (s.withLimiter l)).1 = (handler s).1.withLimiter l ∧
        (handler (s.withLimiter l)).2.map body = (handler s).2.map body ∧
        (handler s).1.limiter = s.limiter by
    cases r with
    | register => exact this .registered (register_unlimited _ _ _ _)
    | samples c => exact absurd rfl (h c)
    | updateNode => exact this .located (updateNode_unlimited _ _ _)
    | deleteNode => exact this .deleted (deleteNode_unlimited _ _ _)
    | adminUpdateNode => exact this .located (adminUpdateNode_unlimited _ _ _ _)
    | adminDeleteNode => exact this .deleted (adminDeleteNode_unlimited _ _ _ _)
    | surveyUpload => exact this .uploaded (surveyUpload_unlimited _ _ _ _)
  intro β handler body hhandler
  obtain ⟨heq, hlimiter⟩ := hhandler s l
  rw [heq]
  exact ⟨rfl, rfl, hlimiter⟩

/-- What a samples request makes of another limiter that gives the same answer. -/
theorem postSamples_withLimiter (rt : Runtime) (s : App) (l : RateLimiter) (c : SamplesCall) :
    let rows := max (c.body.electrical.length + c.body.weather.length) 1
    (l.allow c.monotonic c.body.nodeId rows).2 = (s.limiter.allow c.monotonic c.body.nodeId rows).2 →
      let x := postSamples rt s c
      let y := postSamples rt (s.withLimiter l) c
      y.2 = x.2 ∧
        (x.1.limiter = s.limiter ∧ y.1 = x.1.withLimiter l ∨
          x.1.limiter = (s.limiter.allow c.monotonic c.body.nodeId rows).1 ∧
            y.1 = x.1.withLimiter (l.allow c.monotonic c.body.nodeId rows).1) := by
  intro rows hsame
  simp only [postSamples, App.withLimiter]
  cases requireBearer rt c.authorization with
  | error e => exact ⟨rfl, Or.inl ⟨rfl, rfl⟩⟩
  | ok presented =>
    dsimp only
    cases authenticateNode s.db presented c.body.nodeId with
    | error e => exact ⟨rfl, Or.inl ⟨rfl, rfl⟩⟩
    | ok node =>
      dsimp only [rows] at hsame
      cases hallowed : (s.limiter.allow c.monotonic c.body.nodeId
          (max (c.body.electrical.length + c.body.weather.length) 1)).2 with
      | false =>
        rw [hallowed] at hsame
        simp only [hsame, Bool.not_false, if_true, true_and]
        exact Or.inr ⟨rfl, rfl⟩
      | true =>
        rw [hallowed] at hsame
        simp only [hsame, Bool.not_true, Bool.false_eq_true, if_false]
        split
        · exact ⟨rfl, Or.inr ⟨rfl, rfl⟩⟩
        · split <;> exact ⟨rfl, Or.inr ⟨rfl, rfl⟩⟩

/-- A refused samples request was refused by the limiter, or left the server as it was. -/
theorem postSamples_refused {c : SamplesCall} {status : Nat} {detail : String}
    (h : (postSamples rt s c).2 = .error (.http status detail)) :
    let rows := max (c.body.electrical.length + c.body.weather.length) 1
    (postSamples rt s c).1 = s ∨
      (s.limiter.allow c.monotonic c.body.nodeId rows).2 = false ∧
        (postSamples rt s c).1 = s.withLimiter (s.limiter.allow c.monotonic c.body.nodeId rows).1 := by
  intro rows
  cases hpresented : requireBearer rt c.authorization with
  | error e => exact Or.inl (by simp only [postSamples, hpresented])
  | ok presented =>
    cases hnode : authenticateNode s.db presented c.body.nodeId with
    | error e => exact Or.inl (by simp only [postSamples, hpresented, hnode])
    | ok node =>
      simp only [postSamples, hpresented, hnode] at h ⊢
      cases hallowed : (s.limiter.allow c.monotonic c.body.nodeId rows).2 with
      | false =>
        simp only [Bool.not_false, if_true]
        exact Or.inr ⟨trivial, rfl⟩
      | true =>
        -- past the limiter only an exception cuts a request short
        simp only [rows] at hallowed
        simp only [hallowed, Bool.not_true, Bool.false_eq_true, if_false] at h
        split at h
        · cases h
        · split at h <;> cases h

/-- A request refused with a status leaves the server as it was, but for the limiter of a refused call. -/
theorem refused_handle {r : Request} {status : Nat} {detail : String}
    (h : s.answer rt r = .error (.http status detail)) :
    s.handle rt r = s ∨
      ∃ c, r = .samples c ∧
        let rows := max (c.body.electrical.length + c.body.weather.length) 1
        (s.limiter.allow c.monotonic c.body.nodeId rows).2 = false ∧
          s.handle rt r = s.withLimiter (s.limiter.allow c.monotonic c.body.nodeId rows).1 := by
  by_cases hsamples : ∃ c, r = .samples c
  · obtain ⟨c, rfl⟩ := hsamples
    have hpost : (postSamples rt s c).2 = .error (.http status detail) := by
      simp only [App.answer] at h
      generalize (postSamples rt s c).2 = answer at h
      cases answer with
      | ok response => cases h
      | error e => exact congrArg Except.error (Except.error.inj h)
    rcases postSamples_refused hpost with heq | hrefused
    · exact Or.inl heq
    · exact Or.inr ⟨c, rfl, hrefused⟩
  · have houtcome := handle_outcome rt s r (not_exists.mp hsamples)
    generalize s.handle rt r = s', s.answer rt r = answer at houtcome h ⊢
    cases houtcome with
    | refuse e => exact Or.inl rfl
    | create => cases h
    | collide => cases h
    | consent => cases h
    | delete => cases h

/-- Two servers that nothing to come can tell apart, but for their limiters. -/
structure App.Alike (steps : List ServerStep) (s s' : App) : Prop where
  rest : s' = s.withLimiter s'.limiter
  rate : s.limiter.refillPerSec = s.limiter.capacity / 60
  limiters : ∃ last, Steady last steps ∧ s.limiter.Alike last s'.limiter

theorem App.Alike.refill {steps : List ServerStep} (h : App.Alike steps s s') (hopen : 0 ≤ s.limiter.capacity) :
    0 ≤ s.limiter.refillPerSec := by
  rw [h.rate]
  exact div_nonneg hopen (by norm_num)

/-- A step leaves them so when it leaves limiters that are alike, of the same size and rate. -/
theorem App.Alike.next {steps steps' : List ServerStep} {t : App} {l : RateLimiter} (h : App.Alike steps s s')
    (hrate : t.limiter.refillPerSec = s.limiter.refillPerSec)
    (hcapacity : t.limiter.capacity = s.limiter.capacity)
    (hsteady : Steady last steps') (halike : t.limiter.Alike last l) : App.Alike steps' t (t.withLimiter l) :=
  ⟨rfl, by rw [hrate, hcapacity, h.rate], last, hsteady, halike⟩

theorem App.Alike.dropped {step : ServerStep} {steps : List ServerStep} (h : App.Alike (step :: steps) s s')
    (hdrop : s.refuses rt step = true) : App.Alike steps (s.serve rt step) s' := by
  obtain ⟨last, hsteady, halike⟩ := h.limiters
  cases step with
  | restart => cases hdrop
  | op o =>
    cases o with
    | drain parseFile ticks => cases hdrop
    | request r =>
      simp only [App.refuses] at hdrop
      split at hdrop
      · next status detail hanswer =>
        by_cases hsamples : ∃ c, r = .samples c
        · obtain ⟨c, rfl⟩ := hsamples
          obtain ⟨hnow, hsteady⟩ := hsteady
          rcases refused_handle hanswer with heq | ⟨c', hc, hrefused, heq⟩
          · rw [App.serve, App.step, heq]
            exact ⟨h.rest, h.rate, _, hsteady, halike.later hnow⟩
          · cases hc
            have served := s.limiter.allow_served c.monotonic c.body.nodeId
              (max (c.body.electrical.length + c.body.weather.length) 1)
            rw [App.serve, App.step, heq]
            have hrate := h.rate
            rw [← served.refillPerSec, ← served.capacity] at hrate
            exact ⟨h.rest, hrate, _, hsteady, halike.refused h.refill hnow hrefused⟩
        · have hr := not_exists.mp hsamples
          rcases refused_handle hanswer with heq | ⟨c, rfl, -⟩
          · rw [App.serve, App.step, heq]
            exact ⟨h.rest, h.rate, last, (steady_request hr steps).mp hsteady, halike⟩
          · exact absurd rfl (hr c)
      · cases hdrop

variable (rt) in
/-- A request is answered alike, and leaves servers that are alike. -/
theorem App.Alike.request {r : Request} {steps : List ServerStep} {l : RateLimiter}
    (h : App.Alike (.op (.request r) :: steps) s (s.withLimiter l)) :
    App.Alike steps (s.handle rt r) ((s.withLimiter l).handle rt r) ∧
      (s.withLimiter l).answer rt r = s.answer rt r := by
  obtain ⟨last, hsteady, halike⟩ := h.limiters
  by_cases hsamples : ∃ c, r = .samples c
  · obtain ⟨c, rfl⟩ := hsamples
    obtain ⟨hnow, hsteady⟩ := hsteady
    have hafter := halike.allow hnow c.body.nodeId (max (c.body.electrical.length + c.body.weather.length) 1)
    obtain ⟨hanswer, hposted⟩ := postSamples_withLimiter rt s l c (halike.answer hnow _ _)
    refine ⟨?_, by rw [App.answer, hanswer, App.answer]⟩
    rcases hposted with ⟨hlimiter, heq⟩ | ⟨hlimiter, heq⟩
    · rw [App.handle, App.handle, heq]
      exact h.next (by rw [hlimiter]) (by rw [hlimiter]) hsteady (by rw [hlimiter]; exact halike.later hnow)
    · have served := s.limiter.allow_served c.monotonic c.body.nodeId
        (max (c.body.electrical.length + c.body.weather.length) 1)
      rw [App.handle, App.handle, heq]
      exact h.next (by rw [hlimiter, served.refillPerSec]) (by rw [hlimiter, served.capacity]) hsteady
        (by rw [hlimiter]; exact hafter)
  · have hr := not_exists.mp hsamples
    obtain ⟨hhandle, hanswer, hlimiter⟩ := handle_withLimiter rt s l hr
    refine ⟨?_, hanswer⟩
    rw [hhandle]
    exact h.next (by rw [hlimiter]) (by rw [hlimiter]) ((steady_request hr steps).mp hsteady)
      (by rw [hlimiter]; exact halike)

theorem App.Alike.kept {step : ServerStep} {steps : List ServerStep} (h : App.Alike (step :: steps) s s')
    (hdrop : s.refuses rt step = false) :
    App.Alike steps (s.serve rt step) (s'.serve rt step) ∧ s'.refuses rt step = false ∧
      s.reply rt step = s'.reply rt step := by
  have hrest := h.rest
  generalize s'.limiter = l at hrest
  subst hrest
  cases step with
  | restart =>
    obtain ⟨last, hsteady, halike⟩ := h.limiters
    have hcapacity : l.capacity = s.limiter.capacity := halike.capacity
    refine ⟨⟨rfl, rfl, none, hsteady, ?_⟩, rfl, rfl⟩
    simp only [App.serve, App.restart, App.withLimiter, hcapacity]
    exact .refl none _
  | op o =>
    cases o with
    | drain parseFile ticks => exact ⟨⟨rfl, h.rate, h.limiters⟩, rfl, rfl⟩
    | request r =>
      obtain ⟨hafter, hanswer⟩ := h.request rt
      refine ⟨hafter, ?_, congrArg some hanswer.symm⟩
      rw [← hdrop]
      simp only [App.refuses, hanswer]

/-- A node allowed two rows a minute sends three batches: the second is refused, for it comes too early, and
so is a stranger's. The third comes to another process, on a clock of its own. -/
def hastyRun : List ServerStep :=
  let send := fun (authorization : String) (at_ : ℚ) (stamps : List String) =>
    ServerStep.op (.request (.samples
      { authorization := some authorization
        body := { nodeId := "n1", electrical := stamps.map .mains }
        monotonic := at_ }))
  [.op (.request (.register { channels := [.frequencyHz], locTier := .region, region := some "LONDON" }
      none none ⟨"n1", "secret", "2026-07-10T08:00:00Z"⟩)),
   send "Bearer secret" 50 ["2026-07-10T09:00:00Z", "2026-07-10T09:00:01Z"],
   send "Bearer guess" 51 ["2026-07-10T09:00:02Z"],
   send "Bearer secret" 52 ["2026-07-10T09:00:02Z"],
   .restart,
   send "Bearer secret" 1 ["2026-07-10T09:00:30Z"]]

end GridWitness.Server
