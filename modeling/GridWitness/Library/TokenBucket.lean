import Mathlib.Tactic.Linarith
import Mathlib.Tactic.Ring

universe u

namespace GridWitness.Library

/-- A bucket of tokens, and the reading of the clock at which it was last touched. -/
structure TokenBucket (K : Type u) where
  tokens : K
  last : K

namespace TokenBucket

variable {K : Type u} [CommRing K] [LinearOrder K]

section Take

variable (capacity rate : K)

def full (now : K) : TokenBucket K := ⟨capacity, now⟩

def refill (b : TokenBucket K) (now : K) : TokenBucket K :=
  ⟨min capacity (b.tokens + (now - b.last) * rate), now⟩

/-- Take tokens out of a refilled bucket, or none of them when it holds too few. -/
def take (b : TokenBucket K) (now amount : K) : TokenBucket K × Bool :=
  if (b.refill capacity rate now).tokens < amount then (b.refill capacity rate now, false)
  else (⟨(b.refill capacity rate now).tokens - amount, now⟩, true)

/-- A bucket that was never asked is full. -/
def request (b : Option (TokenBucket K)) (now amount : K) : TokenBucket K × Bool :=
  (b.getD (full capacity now)).take capacity rate now amount

/-- A request as it was answered. -/
structure Request (K : Type u) where
  now : K
  amount : K
  admitted : Bool

def Request.cost (r : Request K) : K := if r.admitted then r.amount else 0

/-- The requests of a list of readings and amounts, as they are answered one after the other. -/
def requests : Option (TokenBucket K) → List (K × K) → Option (TokenBucket K) × List (Request K)
  | b, [] => (b, [])
  | b, (now, amount) :: calls =>
    let (b', admitted) := request capacity rate b now amount
    let (b'', answered) := requests (some b') calls
    (b'', ⟨now, amount, admitted⟩ :: answered)

/-- What the bucket holds, less what the clock has let in since it read zero. -/
def potential (b : TokenBucket K) : K := b.tokens - rate * b.last

end Take

variable {capacity rate : K} {b : TokenBucket K} {now amount : K}

theorem take_last (b : TokenBucket K) (now amount : K) : (b.take capacity rate now amount).1.last = now := by
  rw [take]
  split <;> rfl

theorem take_refused (h : (b.take capacity rate now amount).2 = false) :
    (b.take capacity rate now amount).1 = b.refill capacity rate now := by
  rw [take] at h ⊢
  split at h
  · next hfew => rw [if_pos hfew]
  · cases h

variable (capacity rate) in
/-- A take pays its cost out of the potential of the refilled bucket. -/
theorem potential_take (b : TokenBucket K) (now amount : K) :
    (b.take capacity rate now amount).1.potential rate +
        (Request.mk now amount (b.take capacity rate now amount).2).cost =
      (b.refill capacity rate now).potential rate := by
  rw [take]
  split
  · simp [Request.cost]
  · simp only [Request.cost, if_true, potential, refill]
    ring

section Requests

theorem requests_append (b : Option (TokenBucket K)) (xs ys : List (K × K)) :
    requests capacity rate b (xs ++ ys) =
      ((requests capacity rate (requests capacity rate b xs).1 ys).1,
        (requests capacity rate b xs).2 ++
          (requests capacity rate (requests capacity rate b xs).1 ys).2) := by
  induction xs generalizing b with
  | nil => rfl
  | cons call xs ih => simp only [List.cons_append, requests, ih]

theorem requests_take (b : Option (TokenBucket K)) (calls : List (K × K)) (n : Nat) :
    (requests capacity rate b calls).2.take n = (requests capacity rate b (calls.take n)).2 := by
  induction calls generalizing b n with
  | nil => simp [requests]
  | cons call calls ih =>
    cases n with
    | zero => rfl
    | succ n => simp only [requests, List.take_succ_cons, ih]

theorem requests_drop (b : Option (TokenBucket K)) (calls : List (K × K)) (n : Nat) :
    (requests capacity rate b calls).2.drop n =
      (requests capacity rate (requests capacity rate b (calls.take n)).1 (calls.drop n)).2 := by
  induction calls generalizing b n with
  | nil => simp [requests]
  | cons call calls ih =>
    cases n with
    | zero => rfl
    | succ n => simp only [requests, List.drop_succ_cons, List.take_succ_cons, ih]

/-- A request is answered by the bucket that the ones before it leave. -/
theorem requests_getElem? (b : Option (TokenBucket K)) (calls : List (K × K)) {j : Nat} {r : Request K}
    (hj : (requests capacity rate b calls).2[j]? = some r) :
    r.admitted = (request capacity rate (requests capacity rate b (calls.take j)).1 r.now r.amount).2 := by
  induction calls generalizing b j with
  | nil => cases hj
  | cons call calls ih =>
    cases j with
    | zero =>
      obtain rfl := Option.some.inj hj
      rfl
    | succ j => exact ih _ hj

end Requests

theorem take_eq (b : TokenBucket K) (now amount : K) :
    (b.take capacity rate now amount).2 = true ↔ amount ≤ (b.refill capacity rate now).tokens := by
  rw [take]
  split
  · next hfew => simpa using hfew
  · next hmany => simpa using hmany

variable [IsStrictOrderedRing K]

theorem take_admitted (h : (b.take capacity rate now amount).2 = true) :
    0 ≤ (b.take capacity rate now amount).1.tokens := by
  rw [take] at h ⊢
  split at h
  · cases h
  · next hmany =>
    rw [if_neg hmany]
    exact sub_nonneg.mpr (not_lt.mp hmany)

variable (capacity rate) in
/-- Refilling never raises the potential: it adds what the clock let in, up to the capacity. -/
theorem potential_refill (b : TokenBucket K) (now : K) :
    (b.refill capacity rate now).potential rate ≤ b.potential rate := by
  have hmin : min capacity (b.tokens + (now - b.last) * rate) ≤ b.tokens + (now - b.last) * rate :=
    min_le_right _ _
  simp only [potential, refill]
  linarith [hmin, mul_comm rate now, mul_comm rate b.last, sub_mul now b.last rate]

variable (capacity rate) in
theorem potential_refill_le (b : TokenBucket K) (now : K) :
    (b.refill capacity rate now).potential rate ≤ capacity - rate * now := by
  have hmin : min capacity (b.tokens + (now - b.last) * rate) ≤ capacity := min_le_left _ _
  simp only [potential, refill]
  linarith [hmin]

variable (capacity rate) in
/-- The requests made to a bucket are paid out of its potential. -/
theorem potential_requests (b : TokenBucket K) (calls : List (K × K)) :
    ∃ b', (requests capacity rate (some b) calls).1 = some b' ∧
      b'.potential rate + ((requests capacity rate (some b) calls).2.map Request.cost).sum ≤
        b.potential rate := by
  induction calls generalizing b with
  | nil => exact ⟨b, rfl, by simp [requests]⟩
  | cons call calls ih =>
    obtain ⟨now, amount⟩ := call
    obtain ⟨b', hb', hpaid⟩ := ih (b.take capacity rate now amount).1
    refine ⟨b', hb', ?_⟩
    have htake := potential_take capacity rate b now amount
    have hrefill := potential_refill capacity rate b now
    simp only [requests, request, Option.getD_some, List.map_cons, List.sum_cons]
    linarith [hpaid, htake, hrefill]

/-- Requests from a first one on are paid out of a full bucket, whatever was left in it before. -/
theorem potential_from (b : Option (TokenBucket K)) (first amount : K) (calls : List (K × K)) :
    ∃ b', (requests capacity rate b ((first, amount) :: calls)).1 = some b' ∧
      b'.potential rate +
          ((requests capacity rate b ((first, amount) :: calls)).2.map Request.cost).sum ≤
        capacity - rate * first := by
  obtain ⟨b', hb', hpaid⟩ := potential_requests capacity rate
    (request capacity rate b first amount).1 calls
  refine ⟨b', hb', ?_⟩
  have htake := potential_take capacity rate (b.getD (full capacity first)) first amount
  have hrefill := potential_refill_le capacity rate (b.getD (full capacity first)) first
  simp only [requests, request, List.map_cons, List.sum_cons] at hpaid ⊢
  linarith [hpaid, htake, hrefill]

/-- What a bucket gives to some requests, the last one admitted, is at most its capacity and what the
clock let in from the first to the last of them. -/
theorem spent_le (b : Option (TokenBucket K)) (calls : List (K × K)) {ri rj : Request K}
    (hhead : (requests capacity rate b calls).2.head? = some ri)
    (hlast : (requests capacity rate b calls).2.getLast? = some rj) (hadmitted : rj.admitted = true) :
    ((requests capacity rate b calls).2.map Request.cost).sum ≤ capacity + rate * (rj.now - ri.now) := by
  have hpaid : ∃ b', (requests capacity rate b calls).1 = some b' ∧
      b'.potential rate + ((requests capacity rate b calls).2.map Request.cost).sum ≤
        capacity - rate * ri.now := by
    cases calls with
    | nil => cases hhead
    | cons call calls =>
      obtain rfl : _ = ri := Option.some.inj hhead
      exact potential_from b call.1 call.2 calls
  obtain ⟨b', hb', hpaid⟩ := hpaid
  -- the last request leaves no debt
  have hlevel : 0 ≤ b'.tokens ∧ b'.last = rj.now := by
    rcases List.eq_nil_or_concat calls with rfl | ⟨calls, call, rfl⟩
    · cases hlast
    · rw [List.concat_eq_append, requests_append] at hb' hlast
      simp only [requests, List.getLast?_append, List.getLast?_singleton, Option.some_or,
        Option.some.injEq] at hb' hlast
      subst hb' hlast
      exact ⟨take_admitted hadmitted, take_last _ _ _⟩
  simp only [potential, hlevel.2] at hpaid
  linarith [hlevel.1, hpaid, mul_sub rate rj.now ri.now]

variable (capacity rate) in
/-- The same from one request of a run to a later one that is admitted. -/
theorem window_le (b : Option (TokenBucket K)) (calls : List (K × K)) {i j : Nat} (hij : i ≤ j)
    {ri rj : Request K} (hi : (requests capacity rate b calls).2[i]? = some ri)
    (hj : (requests capacity rate b calls).2[j]? = some rj) (hadmitted : rj.admitted = true) :
    ((((requests capacity rate b calls).2.drop i).take (j - i + 1)).map Request.cost).sum ≤
      capacity + rate * (rj.now - ri.now) := by
  have hhead : (((requests capacity rate b calls).2.drop i).take (j - i + 1)).head? = some ri := by
    simp [List.head?_take, List.head?_drop, hi]
  have hlast : (((requests capacity rate b calls).2.drop i).take (j - i + 1)).getLast? = some rj := by
    have hlen : j < (requests capacity rate b calls).2.length := (List.getElem?_eq_some_iff.mp hj).1
    have hcount : (((requests capacity rate b calls).2.drop i).take (j - i + 1)).length = j - i + 1 := by
      rw [List.length_take, List.length_drop]
      omega
    rw [List.getLast?_eq_getElem?, hcount, Nat.add_sub_cancel, List.getElem?_take_of_lt (Nat.lt_succ_self _),
      List.getElem?_drop, Nat.add_sub_cancel' hij, hj]
  rw [requests_drop, requests_take] at hhead hlast ⊢
  exact spent_le _ _ hhead hlast hadmitted

variable (capacity rate) in
/-- What a bucket holds for a reading after some requests: the least that is left of the capacity since one of
them, or of what it held before them. -/
theorem le_refilled_iff (b : TokenBucket K) (calls : List (K × K)) (now x : K) :
    ∃ b', (requests capacity rate (some b) calls).1 = some b' ∧
      (x ≤ (b'.refill capacity rate now).tokens ↔
        x ≤ capacity ∧
          x + ((requests capacity rate (some b) calls).2.map Request.cost).sum ≤
            b.tokens + (now - b.last) * rate ∧
          ∀ i r, (requests capacity rate (some b) calls).2[i]? = some r →
            x + (((requests capacity rate (some b) calls).2.drop i).map Request.cost).sum ≤
              capacity + rate * (now - r.now)) := by
  induction calls generalizing b with
  | nil => exact ⟨b, rfl, by simp [requests, refill]⟩
  | cons call calls ih =>
    obtain ⟨first, amount⟩ := call
    obtain ⟨b', hb', hiff⟩ := ih (b.take capacity rate first amount).1
    refine ⟨b', hb', hiff.trans (and_congr_right fun hcapacity => ?_)⟩
    -- the level after the first request is the lesser of two, and so is what is left of it
    have hfirst : ∀ total : K,
        x + total ≤ (b.take capacity rate first amount).1.tokens + (now - first) * rate ↔
          x + ((Request.mk first amount (b.take capacity rate first amount).2).cost + total) ≤
              b.tokens + (now - b.last) * rate ∧
            x + ((Request.mk first amount (b.take capacity rate first amount).2).cost + total) ≤
              capacity + rate * (now - first) := by
      intro total
      have htake := potential_take capacity rate b first amount
      simp only [potential, take_last, refill] at htake
      have hlevel : (b.take capacity rate first amount).1.tokens =
          min capacity (b.tokens + (first - b.last) * rate) -
            (Request.mk first amount (b.take capacity rate first amount).2).cost := by
        linarith [htake]
      rw [hlevel, sub_add_eq_add_sub, le_sub_iff_add_le, min_add, le_min_iff, and_comm]
      refine and_congr ⟨fun h => ?_, fun h => ?_⟩ ⟨fun h => ?_, fun h => ?_⟩ <;> linarith [h]
    rw [take_last, hfirst, and_assoc]
    simp only [requests, request, Option.getD_some, List.map_cons, List.sum_cons]
    refine and_congr_right fun _ => ⟨fun ⟨hall, hlater⟩ i r hi => ?_, fun h => ⟨?_, fun i r hi => ?_⟩⟩
    · cases i with
      | zero =>
        obtain rfl := Option.some.inj hi
        simpa using hall
      | succ i => exact hlater i r hi
    · simpa using h 0 _ rfl
    · exact h (i + 1) r hi

variable (capacity rate) in
/-- A request is admitted exactly when with it no stretch of requests that ends there is given more than the
capacity and what the clock let in since. -/
theorem admitted_iff (calls : List (K × K)) {j : Nat} {rj : Request K}
    (hj : (requests capacity rate none calls).2[j]? = some rj) :
    rj.admitted = true ↔ ∀ i ri, i ≤ j → (requests capacity rate none calls).2[i]? = some ri →
      rj.amount + ((((requests capacity rate none calls).2.drop i).take (j - i)).map Request.cost).sum ≤
        capacity + rate * (rj.now - ri.now) := by
  rw [requests_getElem? none calls hj, request, take_eq]
  have hbefore : ∀ i, (((requests capacity rate none calls).2.drop i).take (j - i)) =
      (requests capacity rate none (calls.take j)).2.drop i := by
    intro i
    rw [← requests_take, List.drop_take]
  have hwithin : ∀ i, i < j → (requests capacity rate none calls).2[i]? =
      (requests capacity rate none (calls.take j)).2[i]? := by
    intro i hi
    rw [← requests_take, List.getElem?_take_of_lt hi]
  have hlen : (requests capacity rate none (calls.take j)).2.length = j := by
    rw [← requests_take, List.length_take]
    exact min_eq_left (List.getElem?_eq_some_iff.mp hj).1.le
  simp only [hbefore]
  generalize calls.take j = before at hwithin hlen ⊢
  cases before with
  | nil =>
    subst hlen
    simp only [requests, Option.getD_none, refill, full, sub_self, zero_mul, add_zero, min_self]
    refine ⟨fun h i ri hi hri => ?_, fun h => ?_⟩
    · obtain rfl := Nat.le_zero.mp hi
      obtain rfl := Option.some.inj (hri.symm.trans hj)
      simpa using h
    · simpa using h 0 rj (le_refl 0) hj
  | cons call before =>
    obtain ⟨b', hb', hiff⟩ :=
      le_refilled_iff capacity rate (full capacity call.1) (call :: before) rj.now rj.amount
    have hstart : requests capacity rate none (call :: before) =
        requests capacity rate (some (full capacity call.1)) (call :: before) := rfl
    rw [hstart] at hwithin hlen ⊢
    rw [hb', Option.getD_some, hiff]
    refine ⟨fun ⟨hcapacity, _, hwindows⟩ i ri hi hri => ?_, fun h => ⟨?_, ?_, fun i r hr => ?_⟩⟩
    · rcases hi.lt_or_eq with hi | rfl
      · exact hwindows i ri (hwithin i hi ▸ hri)
      · obtain rfl := Option.some.inj (hri.symm.trans hj)
        rw [List.drop_eq_nil_of_le hlen.le]
        simpa using hcapacity
    · have hown := h j rj (le_refl j) hj
      rw [List.drop_eq_nil_of_le hlen.le] at hown
      simpa using hown
    · have hall := h 0 _ (Nat.zero_le j) (by rw [hwithin 0 (by rw [← hlen]; exact Nat.succ_pos _)]; rfl)
      rw [mul_comm]
      exact hall
    · have hi : i < j := by
        rw [← hlen]
        exact (List.getElem?_eq_some_iff.mp hr).1
      exact h i r hi.le (by rw [hwithin i hi, hr])

/-- Between empty and full. -/
def Within (capacity : K) (b : TokenBucket K) : Prop := 0 ≤ b.tokens ∧ b.tokens ≤ capacity

/-- A bucket stays between empty and full while the clock does not go back. -/
theorem request_within (hcapacity : 0 ≤ capacity) (hrate : 0 ≤ rate) (hamount : 0 ≤ amount)
    {b : Option (TokenBucket K)} (hb : ∀ b₀ ∈ b, b₀.Within capacity ∧ b₀.last ≤ now) :
    (request capacity rate b now amount).1.Within capacity := by
  have hstart : (b.getD (full capacity now)).Within capacity ∧ (b.getD (full capacity now)).last ≤ now := by
    cases b with
    | none => exact ⟨⟨hcapacity, le_refl _⟩, le_refl _⟩
    | some b₀ => exact hb b₀ rfl
  obtain ⟨⟨hlow, -⟩, hlast⟩ := hstart
  have hin : 0 ≤ (now - (b.getD (full capacity now)).last) * rate :=
    mul_nonneg (sub_nonneg.mpr hlast) hrate
  have hrefill : ((b.getD (full capacity now)).refill capacity rate now).Within capacity :=
    ⟨le_min hcapacity (add_nonneg hlow hin), min_le_left _ _⟩
  rw [request, take]
  split
  · exact hrefill
  · next hmany => exact ⟨sub_nonneg.mpr (not_lt.mp hmany), (sub_le_self _ hamount).trans hrefill.2⟩

/-- Where enough flows in for a full bucket between some requests and a later reading, what they took flows in
by then, whatever the order of their readings. -/
theorem window_rested (hcapacity : 0 ≤ capacity) (hrate : 0 ≤ rate) (b : Option (TokenBucket K))
    (calls : List (K × K)) {quiet : K} (hquiet : capacity ≤ rate * quiet) {i j : Nat} {ri : Request K}
    (hi : (requests capacity rate b calls).2[i]? = some ri)
    (hlong : ∀ k rk, k < j → (requests capacity rate b calls).2[k]? = some rk → quiet ≤ now - rk.now) (m : Nat)
    (hm : i + m ≤ j) (hij : i < j) :
    ((((requests capacity rate b calls).2.drop i).take m).map Request.cost).sum ≤ rate * (now - ri.now) := by
  have hrested : ∀ k rk, k < j → (requests capacity rate b calls).2[k]? = some rk →
      capacity ≤ rate * (now - rk.now) := fun k rk hk hrk =>
    hquiet.trans (mul_le_mul_of_nonneg_left (hlong k rk hk hrk) hrate)
  induction m with
  | zero => simpa using hcapacity.trans (hrested i ri hij hi)
  | succ m ih =>
    cases hk : (requests capacity rate b calls).2[i + m]? with
    | none =>
      rw [List.take_add_one, List.getElem?_drop, hk, Option.toList_none, List.append_nil]
      exact ih (by omega)
    | some rk =>
      cases hadmitted : rk.admitted with
      | true =>
        have hwindow := window_le capacity rate b calls (Nat.le_add_right i m) hi hk hadmitted
        rw [Nat.add_sub_cancel_left] at hwindow
        have hfull := hrested (i + m) rk (by omega) hk
        linarith
      | false =>
        have hcost : rk.cost = 0 := by rw [Request.cost, hadmitted, if_neg Bool.false_ne_true]
        rw [List.take_add_one, List.getElem?_drop, hk, Option.toList_some, List.map_append, List.sum_append,
          List.map_singleton, hcost, List.sum_singleton, add_zero]
        exact ih (by omega)

theorem admitted_amount {calls : List (K × K)} {j : Nat} {rj : Request K}
    (hj : (requests capacity rate none calls).2[j]? = some rj) (hadmitted : rj.admitted = true) :
    rj.amount ≤ capacity := by
  have hwindow := (admitted_iff capacity rate calls hj).mp hadmitted j rj le_rfl hj
  simpa using hwindow

/-- When enough has flowed in since every earlier request, one is admitted exactly when it is no larger than
the bucket. -/
theorem admitted_rested (hcapacity : 0 ≤ capacity) (hrate : 0 ≤ rate) {calls : List (K × K)} {quiet : K}
    (hquiet : capacity ≤ rate * quiet) {j : Nat} {rj : Request K}
    (hj : (requests capacity rate none calls).2[j]? = some rj)
    (hlong : ∀ k rk, k < j → (requests capacity rate none calls).2[k]? = some rk → quiet ≤ rj.now - rk.now) :
    rj.admitted = true ↔ rj.amount ≤ capacity := by
  refine ⟨admitted_amount hj, fun hamount => ?_⟩
  rw [admitted_iff capacity rate calls hj]
  intro i ri hij hi
  rcases hij.lt_or_eq with hlt | rfl
  · have hwindow := window_rested hcapacity hrate none calls hquiet hi hlong (j - i) (by omega) hlt
    linarith
  · obtain rfl := Option.some.inj (hi.symm.trans hj)
    simpa using hamount

/-- A refill in between is lost in a later one. -/
theorem refill_refill (hrate : 0 ≤ rate) (b : TokenBucket K) {first second : K} (h : first ≤ second) :
    (b.refill capacity rate first).refill capacity rate second = b.refill capacity rate second := by
  have hin : 0 ≤ (second - first) * rate := mul_nonneg (sub_nonneg.mpr h) hrate
  have hsplit : b.tokens + (second - b.last) * rate =
      b.tokens + (first - b.last) * rate + (second - first) * rate := by ring
  simp only [refill, mk.injEq, and_true]
  rw [hsplit, min_add, ← min_assoc, min_eq_left (le_add_of_nonneg_right hin)]

/-- So it is in a bucket that was never asked. -/
theorem full_refill (hrate : 0 ≤ rate) {first second : K} (h : first ≤ second) :
    ((full capacity first).refill capacity rate first).refill capacity rate second =
      (full capacity second).refill capacity rate second := by
  have hin : 0 ≤ (second - first) * rate := mul_nonneg (sub_nonneg.mpr h) hrate
  simp only [refill, full, mk.injEq, and_true, sub_self, zero_mul, add_zero, min_self]
  exact min_eq_left (le_add_of_nonneg_right hin)

end TokenBucket

end GridWitness.Library
