import GridWitness.Library.TokenBucket
import GridWitness.Server.Site

namespace GridWitness.Server

open Library

namespace RateLimiter

/-- A call of `allow`: the reading of the clock it took before it got the lock, and what it asks for. -/
structure Call where
  now : ℚ
  nodeId : String
  rows : Nat

/-- A call in the order of the lock, with its answer and the limiters before and after it. -/
structure Entry extends Call where
  before : RateLimiter
  admitted : Bool
  after : RateLimiter

/-- The calls of `allow`, one after the other. -/
def log : RateLimiter → List Call → List Entry
  | _, [] => []
  | l, call :: calls =>
    let (after, admitted) := l.allow call.now call.nodeId call.rows
    ⟨call, l, admitted, after⟩ :: log after calls

/-- The rows let through by some calls. -/
def admittedRows (entries : List Entry) : Nat :=
  (entries.map fun e => if e.admitted then e.rows else 0).sum

/-- The bucket of a node, if there is one yet. -/
def bucket (l : RateLimiter) (nodeId : String) : Option (TokenBucket ℚ) :=
  (l.buckets.lookup nodeId).map fun b => ⟨b.1, b.2⟩

/-- What the bucket of a node holds once it is refilled, which is what a call finds. -/
def refilled (l : RateLimiter) (now : ℚ) (nodeId : String) : TokenBucket ℚ :=
  ((l.bucket nodeId).getD (.full l.capacity now)).refill l.capacity l.refillPerSec now

def Entry.request (e : Entry) : TokenBucket.Request ℚ := ⟨e.now, e.rows, e.admitted⟩

/-- What the calls of a node ask of its bucket. -/
def asked (node : String) (calls : List Call) : List (ℚ × ℚ) :=
  (calls.filter (·.nodeId = node)).map fun c => (c.now, (c.rows : ℚ))

/-- A call is a request to the bucket of its node, and leaves the other buckets alone. -/
structure Served (l : RateLimiter) (now : ℚ) (nodeId : String) (rows : Nat) (after : RateLimiter)
    (admitted : Bool) : Prop where
  answer : admitted = (TokenBucket.request l.capacity l.refillPerSec (l.bucket nodeId) now rows).2
  bucket : after.bucket nodeId =
    some (TokenBucket.request l.capacity l.refillPerSec (l.bucket nodeId) now rows).1
  frame : ∀ node, node ≠ nodeId → after.bucket node = l.bucket node
  capacity : after.capacity = l.capacity
  refillPerSec : after.refillPerSec = l.refillPerSec

theorem allow_served (l : RateLimiter) (now : ℚ) (nodeId : String) (rows : Nat) :
    l.Served now nodeId rows (l.allow now nodeId rows).1 (l.allow now nodeId rows).2 := by
  have hframe : ∀ (b : ℚ × ℚ) (node : String), node ≠ nodeId →
      { l with buckets := l.buckets.replaceRow nodeId b }.bucket node = l.bucket node := by
    intro b node hne
    rw [RateLimiter.bucket, Table.lookup_replaceRow, if_neg hne]
    rfl
  have hown : ∀ b : ℚ × ℚ, { l with buckets := l.buckets.replaceRow nodeId b }.bucket nodeId =
      some ⟨b.1, b.2⟩ := by
    intro b
    rw [RateLimiter.bucket, Table.lookup_replaceRow, if_pos rfl]
    rfl
  have hfound : (l.bucket nodeId).getD (.full l.capacity now) =
      ⟨((l.buckets.lookup nodeId).getD (l.capacity, now)).1,
        ((l.buckets.lookup nodeId).getD (l.capacity, now)).2⟩ := by
    rw [RateLimiter.bucket]
    cases l.buckets.lookup nodeId <;> rfl
  constructor
  · simp only [allow, TokenBucket.request, TokenBucket.take, TokenBucket.refill, hfound]
    split <;> rfl
  · simp only [allow, TokenBucket.request, TokenBucket.take, TokenBucket.refill, hfound]
    split <;> exact hown _
  · intro node hne
    simp only [allow]
    split <;> exact hframe _ node hne
  · simp only [allow]
    split <;> rfl
  · simp only [allow]
    split <;> rfl

/-- The calls of a node are requests to its bucket, whatever other nodes do in between. -/
theorem own_requests (l : RateLimiter) (calls : List Call) (node : String) :
    ((l.log calls).filter (·.nodeId = node)).map Entry.request =
      (TokenBucket.requests l.capacity l.refillPerSec (l.bucket node) (asked node calls)).2 := by
  induction calls generalizing l with
  | nil => rfl
  | cons call calls ih =>
    have served := l.allow_served call.now call.nodeId call.rows
    have hrest := ih (l.allow call.now call.nodeId call.rows).1
    rw [served.capacity, served.refillPerSec] at hrest
    by_cases hnode : call.nodeId = node
    · subst hnode
      rw [served.bucket] at hrest
      simp only [log, asked, List.filter_cons, decide_true, if_true, List.map_cons, TokenBucket.requests,
        Entry.request, served.answer]
      exact congrArg _ hrest
    · rw [served.frame node (Ne.symm hnode)] at hrest
      simpa only [log, asked, List.filter_cons, hnode, decide_false, if_false, Bool.false_eq_true] using hrest

theorem cost_request (entries : List Entry) :
    ((entries.map Entry.request).map TokenBucket.Request.cost).sum = (admittedRows entries : ℚ) := by
  induction entries with
  | nil => simp [admittedRows]
  | cons e entries ih =>
    rw [List.map_cons, List.map_cons, List.sum_cons, ih]
    simp only [admittedRows, List.map_cons, List.sum_cons, Nat.cast_add]
    split_ifs <;> simp_all [TokenBucket.Request.cost, Entry.request]

/-- An entry of a log is a call of `allow` on a limiter of the same size. -/
theorem log_mem {l : RateLimiter} {calls : List Call} {e : Entry} (he : e ∈ l.log calls) :
    e.before.capacity = l.capacity ∧ e.before.refillPerSec = l.refillPerSec ∧
      e.before.Served e.now e.nodeId e.rows e.after e.admitted := by
  induction calls generalizing l with
  | nil => cases he
  | cons call calls ih =>
    have served := l.allow_served call.now call.nodeId call.rows
    rcases List.mem_cons.mp he with rfl | he
    · exact ⟨rfl, rfl, served⟩
    · obtain ⟨hcapacity, hrefill, hserved⟩ := ih he
      exact ⟨hcapacity.trans served.capacity, hrefill.trans served.refillPerSec, hserved⟩

/-- Every bucket was touched before a reading, and is between empty and full. -/
def Level (l : RateLimiter) (now : ℚ) : Prop :=
  ∀ node b, l.bucket node = some b → b.Within l.capacity ∧ b.last ≤ now

theorem allow_level {l : RateLimiter} {now : ℚ} (hl : l.Level now) (hcapacity : 0 ≤ l.capacity)
    (hrefill : 0 ≤ l.refillPerSec) (nodeId : String) (rows : Nat) :
    (l.allow now nodeId rows).1.Level now := by
  have served := l.allow_served now nodeId rows
  intro node b hb
  rw [served.capacity]
  by_cases hnode : node = nodeId
  · subst hnode
    rw [served.bucket] at hb
    obtain rfl := Option.some.inj hb
    exact ⟨TokenBucket.request_within hcapacity hrefill (Nat.cast_nonneg rows) fun b₀ hb₀ => hl node b₀ hb₀,
      (TokenBucket.take_last _ _ _).le⟩
  · rw [served.frame node hnode] at hb
    exact hl node b hb

theorem log_level {l : RateLimiter} {calls : List Call} {now : ℚ} (hl : l.Level now)
    (hcapacity : 0 ≤ l.capacity) (hrefill : 0 ≤ l.refillPerSec)
    (hsorted : ((now :: calls.map (·.now)).Pairwise (· ≤ ·))) {e : Entry} (he : e ∈ l.log calls) :
    e.after.Level e.now := by
  induction calls generalizing l now with
  | nil => cases he
  | cons call calls ih =>
    obtain ⟨hle, hsorted⟩ := List.pairwise_cons.mp hsorted
    have hcall : l.Level call.now := fun node b hb =>
      ⟨(hl node b hb).1, (hl node b hb).2.trans (hle call.now List.mem_cons_self)⟩
    have hafter := allow_level hcall hcapacity hrefill call.nodeId call.rows
    have served := l.allow_served call.now call.nodeId call.rows
    rcases List.mem_cons.mp he with rfl | he
    · exact hafter
    · exact ih hafter (served.capacity ▸ hcapacity) (served.refillPerSec ▸ hrefill) hsorted he

/-- The limiter over any calls: a bound on what a node is let through from one of its calls to a later
admitted one, refusals that take nothing, no effect between nodes, and levels between empty and full
while the clock does not go back. -/
theorem limiter_bound (rowsPerMin : ℚ) (hrows : 0 ≤ rowsPerMin) (calls : List Call) :
    (∀ (node : String) (i j : Nat) (ei ej : Entry), i ≤ j →
      (((new rowsPerMin).log calls).filter (·.nodeId = node))[i]? = some ei →
      (((new rowsPerMin).log calls).filter (·.nodeId = node))[j]? = some ej → ej.admitted = true →
        (admittedRows (((((new rowsPerMin).log calls).filter (·.nodeId = node)).drop i).take (j - i + 1)) : ℚ) ≤
          rowsPerMin + rowsPerMin / 60 * (ej.now - ei.now)) ∧
    (∀ e ∈ (new rowsPerMin).log calls,
      (e.admitted = false → e.after.bucket e.nodeId = some (e.before.refilled e.now e.nodeId)) ∧
      (∀ node, node ≠ e.nodeId → e.after.bucket node = e.before.bucket node)) ∧
    ((calls.map (·.now)).Pairwise (· ≤ ·) → ∀ e ∈ (new rowsPerMin).log calls, ∀ node b,
      e.after.bucket node = some b → 0 ≤ b.tokens ∧ b.tokens ≤ rowsPerMin) := by
  refine ⟨fun node i j ei ej hij hi hj hadmitted => ?_, fun e he => ?_, fun hsorted e he node b hb => ?_⟩
  · have hown : (((new rowsPerMin).log calls).filter (·.nodeId = node)).map Entry.request =
        (TokenBucket.requests rowsPerMin (rowsPerMin / 60) ((new rowsPerMin).bucket node) (asked node calls)).2 :=
      own_requests (new rowsPerMin) calls node
    have hwindow := TokenBucket.window_le rowsPerMin (rowsPerMin / 60) ((new rowsPerMin).bucket node)
      (asked node calls) hij
      (by rw [← hown, List.getElem?_map, hi, Option.map_some])
      (by rw [← hown, List.getElem?_map, hj, Option.map_some]) hadmitted
    rwa [← hown, ← List.map_drop, ← List.map_take, cost_request] at hwindow
  · obtain ⟨-, -, served⟩ := log_mem he
    refine ⟨fun hrefused => ?_, served.frame⟩
    rw [served.bucket, TokenBucket.request, TokenBucket.take_refused]
    · rfl
    · rw [← hrefused, served.answer]
      rfl
  · have hlevel : e.after.Level e.now := by
      cases calls with
      | nil => cases he
      | cons call calls =>
        have hstart : (new rowsPerMin).Level call.now := fun node b hb => by cases hb
        have hagain : (call.now :: (call :: calls).map (·.now)).Pairwise (· ≤ ·) := by
          refine List.pairwise_cons.mpr ⟨fun later hlater => ?_, hsorted⟩
          rcases List.mem_cons.mp hlater with rfl | hlater
          · exact le_refl _
          · exact (List.pairwise_cons.mp hsorted).1 later hlater
        exact log_level hstart hrows (div_nonneg hrows (by norm_num)) hagain he
    obtain ⟨hcapacity, -, served⟩ := log_mem he
    have hsame : e.after.capacity = rowsPerMin := served.capacity.trans hcapacity
    exact hsame ▸ (hlevel node b hb).1

/-- Three calls of a node, the second with a reading taken before the one of the first. -/
def lateReading : List Call := [⟨10, "n1", 40⟩, ⟨9, "n1", 30⟩, ⟨40, "n1", 30⟩]

theorem limiter_bound_lateReading :
    (((new 60).log lateReading).filter (·.nodeId = "n1")).map (·.admitted) = [true, false, true] ∧
      (admittedRows (((((new 60).log lateReading).filter (·.nodeId = "n1")).drop 0).take (2 - 0 + 1)) : ℚ) ≤
        60 + 60 / 60 * (40 - 10) := by
  have hfirst : (((new 60).log lateReading).filter (·.nodeId = "n1"))[0]?.map (·.now) = some 10 := by
    decide +kernel
  have hlast : (((new 60).log lateReading).filter (·.nodeId = "n1"))[2]?.map (fun e => (e.now, e.admitted)) =
      some (40, true) := by
    decide +kernel
  obtain ⟨ei, hi, hfirst⟩ := Option.map_eq_some_iff.mp hfirst
  obtain ⟨ej, hj, hlast⟩ := Option.map_eq_some_iff.mp hlast
  obtain ⟨hlast, hadmitted⟩ := Prod.mk.inj hlast
  have hbound := (limiter_bound 60 (by norm_num) lateReading).1 "n1" 0 2 ei ej (by omega) hi hj hadmitted
  rw [hfirst, hlast] at hbound
  exact ⟨by decide +kernel, hbound⟩

end RateLimiter

end GridWitness.Server
