import GridWitness.Client.Clock
import GridWitness.Client.NtpLaws
import GridWitness.Client.OffsetLaws

namespace GridWitness.Client

open Library Ntp Rounding

universe u

variable {Line : Type u} {behind : ℚ → ℚ} {rate age now v : ℚ} {polls : Polls}

namespace Ntp

/-- One exchange with a server that knows the time. `behind t` is what the host clock is behind by as it
reads `t`, and may change while the exchange is on its way. -/
structure Served (behind : ℚ → ℚ) where
  t1 : ℚ
  received : ℚ
  transmitted : ℚ
  t4 : ℚ
  header : List UInt8
  header_length : header.length = 32
  received_inEra : InEra received
  transmitted_inEra : InEra transmitted
  sent : t1 + behind t1 ≤ received
  held : received ≤ transmitted
  arrived : transmitted ≤ t4 + behind t4

def Served.poll (x : Served behind) : Poll :=
  .answered x.t1 (x.header ++ stamp x.received ++ stamp x.transmitted) x.t4

/-- An offset that is accepted is off by no more than half a second, and what the clock drifts meanwhile. -/
theorem Served.bound (x : Served behind) (h : queryOne x.poll = some v) :
    behind x.t1 - (1 / 2 + 1 / 2 ^ 32) ≤ v ∧ v ≤ behind x.t4 + 1 / 2 := by
  have hparse := parseOffset_stamps [] x.t1 x.t4 x.header_length x.received_inEra x.transmitted_inEra
  rw [List.append_nil] at hparse
  simp only [queryOne, Served.poll, hparse] at h
  split at h
  · cases h
  · next hdelay =>
    cases h
    rw [not_or, not_lt, not_lt, maxDelayS] at hdelay
    have hreceived := lt_stamped x.received_inEra
    have htransmitted := stamped_le x.transmitted_inEra
    have hsent := x.sent
    have harrived := x.arrived
    constructor <;> linarith [hdelay.1]

/-- Of the replies more come from servers that know the time than from others, and not long before or after
`now`, as the host clock reads. -/
def Trusted (behind : ℚ → ℚ) (now age : ℚ) (polls : Polls) : Prop :=
  ∃ wrong : String → Bool, (wrongOffsets wrong polls).length < (correctOffsets wrong polls).length ∧
    ∀ server poll, (server, poll) ∈ polls → wrong server = false →
      poll = .failed ∨ ∃ x : Served behind, poll = x.poll ∧ |now - x.t1| ≤ age ∧ |now - x.t4| ≤ age

theorem mem_correctOffsets {wrong : String → Bool} (h : v ∈ correctOffsets wrong polls) :
    ∃ server poll, (server, poll) ∈ polls ∧ wrong server = false ∧ queryOne poll = some v := by
  obtain ⟨⟨server, o⟩, hreply, rfl⟩ := List.mem_map.mp h
  obtain ⟨hreply, hcorrect⟩ := List.mem_filter.mp hreply
  obtain ⟨⟨server', poll⟩, hpoll, hquery⟩ := List.mem_filterMap.mp hreply
  obtain ⟨o', ho', heq⟩ := Option.map_eq_some_iff.mp hquery
  cases heq
  exact ⟨server, poll, hpoll, by simpa using hcorrect, ho'⟩

/-- What is given is the median, however the servers are told apart. -/
theorem authoritativeOffset_median {n : Int} (wrong : String → Bool)
    (h : authoritativeOffset n (polls.map (·.2)) = .ok (some v)) :
    Median.median (wrongOffsets wrong polls ++ correctOffsets wrong polls) = some v := by
  rw [← Median.median_perm (replies_perm wrong polls), ← filterMap_replies]
  simp only [authoritativeOffset] at h
  split at h
  · cases h
  · split at h
    · cases h
    · next hmedian =>
      cases h
      exact hmedian

/-- The offset that is taken up. -/
def adopted (polls : Polls) : Option ℚ :=
  match authoritativeOffset minResponses (polls.map (·.2)) with
  | .ok (some v) => if maxPlausibleS < |v| then none else some v
  | _ => none

theorem adopted_eq_some (h : adopted polls = some v) :
    authoritativeOffset minResponses (polls.map (·.2)) = .ok (some v) ∧ |v| ≤ maxPlausibleS := by
  rw [adopted] at h
  split at h
  · next hoffset =>
    split at h
    · cases h
    · next hplausible =>
      cases h
      exact ⟨hoffset, not_lt.mp hplausible⟩
  · cases h

/-- A trusted offset is near what the clock is behind by now. -/
theorem Trusted.near (hdrift : ∀ a b, |behind a - behind b| ≤ rate * |a - b|)
    (h : Trusted behind now age polls) (hv : adopted polls = some v) :
    |v - behind now| ≤ 1 / 2 + 1 / 2 ^ 32 + rate * age := by
  obtain ⟨wrong, hfewer, hcorrect⟩ := h
  have hrate : 0 ≤ rate := by
    have h01 := hdrift 1 0
    rw [sub_zero, abs_one, mul_one] at h01
    exact (abs_nonneg _).trans h01
  have hserved : ∀ o ∈ correctOffsets wrong polls, |o - behind now| ≤ 1 / 2 + 1 / 2 ^ 32 + rate * age := by
    intro o ho
    obtain ⟨server, poll, hpoll, hright, hquery⟩ := mem_correctOffsets ho
    rcases hcorrect server poll hpoll hright with rfl | ⟨x, rfl, hage1, hage4⟩
    · cases hquery
    · obtain ⟨hlow, hhigh⟩ := x.bound hquery
      have h1 := (hdrift now x.t1).trans (mul_le_mul_of_nonneg_left hage1 hrate)
      have h4 := (hdrift now x.t4).trans (mul_le_mul_of_nonneg_left hage4 hrate)
      rw [abs_le] at h1 h4 ⊢
      constructor <;> linarith [h1.2, h4.1]
  obtain ⟨⟨lo, hlo, hle⟩, hi, hhi, hge⟩ :=
    Median.median_between hfewer (authoritativeOffset_median wrong (adopted_eq_some hv).1)
  have hbelow := hserved lo hlo
  have habove := hserved hi hhi
  rw [abs_le] at hbelow habove ⊢
  constructor <;> linarith [hbelow.1, habove.2]

end Ntp

/-- The time a row says it is of. -/
def stampOf : Captured → Option Json
  | (.electrical, .obj fields) => fields.lookup "ts_utc"
  | (.weather, .obj fields) => fields.lookup "time"
  | _ => none

theorem onStateEvent_stamp {py : Python} {sensors : Sensors} {offset : Time} {new : State} {r : Captured}
    (h : r ∈ onStateEvent py sensors offset (some new)) :
    stampOf r = some (.str (py.iso (new.lastUpdated + offset))) := by
  rw [onStateEvent] at h
  split at h
  · cases h
  · split at h
    · cases h
    · obtain ⟨⟨channel, phase⟩, -, hrow⟩ := List.mem_filterMap.mp h
      simp only at hrow
      split at hrow
      · cases hrow
        rfl
      · split at hrow
        · cases hrow
          rfl
        · cases hrow

/-- `timedelta` is off by half a microsecond at most. -/
theorem seconds_microseconds (offsetS : ℚ) : |seconds (microseconds offsetS) - offsetS| ≤ 1 / 2 / 10 ^ 6 :=
  abs_decimals_sub 6 offsetS

theorem microseconds_le {offsetS : ℚ} (h : |offsetS| ≤ maxPlausibleS) :
    |microseconds offsetS| ≤ 30 * 10 ^ 6 := by
  refine abs_halfEven_le ?_
  rw [abs_mul, abs_of_pos (by positivity : (0 : ℚ) < 10 ^ 6)]
  rw [maxPlausibleS] at h
  push_cast
  linarith

namespace Station

variable (k : Setup Line) {x : Station Line}

theorem refreshNtp_eq (x : Station Line) (polls : Polls) :
    x.refreshNtp polls =
      match adopted polls with
      | none => x
      | some v => { x with ntpOffsetS := v, ntpOffsetMs := some (decimals 1 (v * 1000)) } := by
  rw [refreshNtp, adopted]
  split <;> simp_all only
  split <;> rfl

/-- The polls whose offset was last taken up. -/
def Event.sync (last : Option Polls) : Event → Option Polls
  | .refresh polls => if (adopted polls).isSome then some polls else last
  | _ => last

def lastSync (events : List Event) : Option Polls := events.foldl Event.sync none

/-- The offset is that of the last polls taken up, and so is the one shown. -/
structure Disciplined (last : Option Polls) (x : Station Line) : Prop where
  offset : x.ntpOffsetS = (last.bind adopted).getD 0
  shown : x.ntpOffsetMs = (last.bind adopted).map fun v => decimals 1 (v * 1000)
  synced : ∀ polls, last = some polls → (adopted polls).isSome

theorem step_disciplined {last : Option Polls} (h : Disciplined last x) (e : Event) :
    Disciplined (e.sync last) (x.step k e) := by
  cases e with
  | refresh polls =>
    rw [step, refreshNtp_eq, Event.sync]
    cases hadopted : adopted polls with
    | none => exact h
    | some v =>
      refine ⟨?_, ?_, ?_⟩
      · simp [hadopted]
      · simp [hadopted]
      · simp [hadopted]
  | echo t0 answer t1 =>
    rw [step, updateOffset]
    split
    · exact h
    · split
      · exact h
      · exact ⟨h.offset, h.shown, h.synced⟩
  | state new => exact ⟨h.offset, h.shown, h.synced⟩
  | timer => exact ⟨h.offset, h.shown, h.synced⟩
  | resume i answer => exact ⟨h.offset, h.shown, h.synced⟩

theorem foldl_disciplined {last : Option Polls} (h : Disciplined last x) (events : List Event) :
    Disciplined (events.foldl Event.sync last) (events.foldl (step k) x) := by
  induction events generalizing last x with
  | nil => exact h
  | cons e events ih => exact ih (step_disciplined k h e)

variable {k} in
theorem run_disciplined (c : Coordinator Line) (buffered : List Captured) (events : List Event) :
    Disciplined (lastSync events) (run k c buffered events) :=
  have hstart : Disciplined none (start c buffered) := ⟨rfl, rfl, nofun⟩
  foldl_disciplined k hstart events

theorem Disciplined.plausible {last : Option Polls} (h : Disciplined last x) :
    |x.ntpOffsetS| ≤ maxPlausibleS := by
  rw [h.offset]
  cases hlast : last.bind adopted with
  | none => simp [maxPlausibleS]
  | some v =>
    obtain ⟨polls, -, hadopted⟩ := Option.bind_eq_some_iff.mp hlast
    exact (adopted_eq_some hadopted).2

/-- However refreshes, states, echoes and flushes are interleaved, a row is stamped with a time no further than
30 seconds from the host clock, with that of the host clock until the first offset is taken up, and within half
a second and what the clock drifts from the true time where the last offset taken up is to be trusted. -/
theorem stamps_true (c : Coordinator Line) (buffered : List Captured) (past : List Event) (new : State) :
    let x := run k c buffered past
    ∃ rows, (x.step k (.state (some new))).world.coordinator.pending =
        x.world.coordinator.pending ++ rows ∧
      ∀ r ∈ rows, ∃ t, stampOf r = some (.str (k.py.iso t)) ∧
        |t - new.lastUpdated| ≤ 30 * 10 ^ 6 ∧
        (lastSync past = none → t = new.lastUpdated) ∧
        ∀ (behind : ℚ → ℚ) (rate age : ℚ) (polls : Polls), lastSync past = some polls →
          (∀ a b, |behind a - behind b| ≤ rate * |a - b|) →
          Trusted behind (seconds new.lastUpdated) age polls →
            |seconds t - (seconds new.lastUpdated + behind (seconds new.lastUpdated))| ≤
              1 / 2 + 1 / 2 ^ 32 + rate * age + 1 / 2 / 10 ^ 6 := by
  intro x
  have hx : Disciplined (lastSync past) x := run_disciplined c buffered past
  refine ⟨_, rfl, fun r hr => ⟨new.lastUpdated + microseconds x.ntpOffsetS, onStateEvent_stamp hr, ?_, ?_, ?_⟩⟩
  · rw [add_sub_cancel_left]
    exact microseconds_le hx.plausible
  · intro hnone
    have hzero : x.ntpOffsetS = 0 := by rw [hx.offset, hnone]; rfl
    have hround : microseconds 0 = 0 := by decide +kernel
    rw [hzero, hround, add_zero]
  · intro behind rate age polls hpolls hdrift htrusted
    obtain ⟨v, hv⟩ := Option.isSome_iff_exists.mp (hx.synced polls hpolls)
    have hoffset : x.ntpOffsetS = v := by rw [hx.offset, hpolls, Option.bind_some, hv]; rfl
    have hnear := htrusted.near hdrift hv
    have hround := seconds_microseconds v
    have hsplit : seconds (new.lastUpdated + microseconds v) =
        seconds new.lastUpdated + seconds (microseconds v) := by
      rw [seconds, seconds, seconds, ← add_div]
      push_cast
      rfl
    rw [hoffset, hsplit]
    rw [abs_le] at hnear hround ⊢
    constructor <;> linarith [hnear.1, hnear.2, hround.1, hround.2]

/-- The exchange whose offset was last taken up: the readings of the clock around it, and the time the server
gave. -/
def Event.echoed (last : Option (Time × Time × Time)) : Event → Option (Time × Time × Time)
  | .echo t0 answer t1 =>
    match (ApiClient.timeEcho k.py answer).toOption.bind (serverReceive k) with
    | none => last
    | some server => some (t0, t1, server)
  | _ => last

def lastEcho (events : List Event) : Option (Time × Time × Time) := events.foldl (Event.echoed k) none

theorem updateOffset_eq (x : Station Line) (t0 : Time) (answer : Exchange) (t1 : Time) :
    x.updateOffset k t0 answer t1 =
      match (ApiClient.timeEcho k.py answer).toOption.bind (serverReceive k) with
      | none => x
      | some server => { x with clockOffsetMs := some (transportOffset t0 t1 server) } := by
  rw [updateOffset]
  cases ApiClient.timeEcho k.py answer <;> rfl

theorem step_clockOffsetMs {last : Option (Time × Time × Time)}
    (h : x.clockOffsetMs = last.map fun (t0, t1, server) => transportOffset t0 t1 server) (e : Event) :
    (x.step k e).clockOffsetMs =
      (e.echoed k last).map fun (t0, t1, server) => transportOffset t0 t1 server := by
  cases e with
  | refresh polls =>
    rw [step, refreshNtp_eq]
    split <;> exact h
  | echo t0 answer t1 =>
    rw [step, updateOffset_eq, Event.echoed]
    split
    · exact h
    · rfl
  | state new => exact h
  | timer => exact h
  | resume i answer => exact h

theorem run_clockOffsetMs (c : Coordinator Line) (buffered : List Captured) (events : List Event) :
    (run k c buffered events).clockOffsetMs =
      (lastEcho k events).map fun (t0, t1, server) => transportOffset t0 t1 server := by
  have hrun : ∀ (last : Option (Time × Time × Time)) (x : Station Line),
      (x.clockOffsetMs = last.map fun (t0, t1, server) => transportOffset t0 t1 server) →
        (events.foldl (step k) x).clockOffsetMs =
          (events.foldl (Event.echoed k) last).map fun (t0, t1, server) => transportOffset t0 t1 server := by
    induction events with
    | nil => exact fun _ _ h => h
    | cons e events ih => exact fun _ _ h => ih _ _ (step_clockOffsetMs k h e)
  exact hrun none (start c buffered) rfl

/-- A server that knows the time receives an echo between the two readings, and says so in milliseconds. -/
def Echoed (behind : ℚ → ℚ) (t0 t1 server : Time) : Prop :=
  ∃ received, seconds t0 + behind (seconds t0) ≤ received ∧ received ≤ seconds t1 + behind (seconds t1) ∧
    seconds server ≤ received ∧ received < seconds server + 1 / 1000

/-- The offset of the transport is off by half the round trip, a millisecond, and what is rounded away. -/
theorem transportOffset_bound {t0 t1 server : Time} (h : Echoed behind t0 t1 server) :
    1000 * behind (seconds t0) - (500 * (seconds t1 - seconds t0) + 1 + 1 / 2000 + 1 / 20) ≤
        transportOffset t0 t1 server ∧
      transportOffset t0 t1 server ≤
        1000 * behind (seconds t1) + (500 * (seconds t1 - seconds t0) + 1 / 2000 + 1 / 20) := by
  obtain ⟨received, hsent, harrived, hlow, hhigh⟩ := h
  have hround := abs_decimals_sub 1 (((server - (t0 + halfEven ((t1 - t0 : Int) / 2)) : Int) : ℚ) / 1000)
  have hmiddle := abs_halfEven_sub (((t1 - t0 : Int) : ℚ) / 2)
  rw [abs_le] at hround hmiddle
  rw [transportOffset]
  simp only [seconds] at *
  push_cast at *
  constructor <;> linarith [hround.1, hround.2, hmiddle.1, hmiddle.2]

/-- The two offsets a node shows tell of the same clock: where the last replies of each kind are to be trusted,
they differ by no more than what each of them may be off by. -/
theorem offsets_agree (c : Coordinator Line) (buffered : List Captured) (behind : ℚ → ℚ) (rate age : ℚ)
    (events : List Event) (polls : Polls) (t0 t1 server : Time)
    (hdrift : ∀ a b, |behind a - behind b| ≤ rate * |a - b|)
    (hpolls : lastSync events = some polls) (htrusted : Trusted behind (seconds t1) age polls)
    (hecho : lastEcho k events = some (t0, t1, server)) (hechoed : Echoed behind t0 t1 server) (horder : t0 ≤ t1) :
    let x := run k c buffered events
    ∃ ntp transport, x.ntpOffsetMs = some ntp ∧ x.clockOffsetMs = some transport ∧
      |transport - ntp| ≤ 1000 * (1 / 2 + 1 / 2 ^ 32 + rate * age) +
        (500 + 1000 * rate) * (seconds t1 - seconds t0) + 1 + 1 / 2000 + 1 / 10 := by
  intro x
  have hx : Disciplined (lastSync events) x := run_disciplined c buffered events
  obtain ⟨v, hv⟩ := Option.isSome_iff_exists.mp (hx.synced polls hpolls)
  have hntp : x.ntpOffsetMs = some (decimals 1 (v * 1000)) := by rw [hx.shown, hpolls, Option.bind_some, hv]; rfl
  have htransport : x.clockOffsetMs = some (transportOffset t0 t1 server) := by
    rw [run_clockOffsetMs, hecho]
    rfl
  refine ⟨_, _, hntp, htransport, ?_⟩
  have hnear := htrusted.near hdrift hv
  have hshown := abs_decimals_sub 1 (v * 1000)
  obtain ⟨hlow, hhigh⟩ := transportOffset_bound hechoed
  have hlater : seconds t0 ≤ seconds t1 := by
    rw [seconds, seconds]
    gcongr
  have hbetween := hdrift (seconds t1) (seconds t0)
  rw [abs_of_nonneg (sub_nonneg.mpr hlater)] at hbetween
  rw [abs_le] at hnear hshown hbetween ⊢
  constructor <;> linarith [hnear.1, hnear.2, hshown.1, hshown.2, hbetween.1, hbetween.2]

/-- A clock five seconds behind, and a reply that is slower on its way back. -/
def slowServed : Served fun _ => 5 where
  t1 := 1000
  received := 1005 + 1 / 10
  transmitted := 1005 + 1 / 10 + 1 / 3
  t4 := 1000 + 1 / 10 + 1 / 3 + 2 / 5
  header := List.replicate 32 0
  header_length := rfl
  received_inEra := by decide +kernel
  transmitted_inEra := by decide +kernel
  sent := by norm_num
  held := by norm_num
  arrived := by norm_num

/-- Two servers that know the time, and one that says the clock is a hundred seconds behind. -/
def outvoted : Polls :=
  [("time.cloudflare.com", slowServed.poll), ("time.google.com", slowServed.poll),
   ("pool.ntp.org", prompt [131, 170, 130, 204])]

theorem outvoted_trusted (hage : |now - slowServed.t1| ≤ age ∧ |now - slowServed.t4| ≤ age) :
    Trusted (fun _ => 5) now age outvoted := by
  refine ⟨(· = "pool.ntp.org"), by decide +kernel, fun server poll hpoll hright => ?_⟩
  simp only [outvoted, List.mem_cons, List.not_mem_nil, or_false, Prod.mk.injEq] at hpoll
  rcases hpoll with ⟨rfl, rfl⟩ | ⟨rfl, rfl⟩ | ⟨rfl, rfl⟩
  · exact Or.inr ⟨slowServed, rfl, hage⟩
  · exact Or.inr ⟨slowServed, rfl, hage⟩
  · simp at hright

/-- One meter, which always reads 240 volts. -/
def oneMeter : Setup Json where
  py := .july
  codec := .plain
  sensors := { mapping := [("voltage_v", [⟨"sensor.mains", none⟩])], float := fun _ => some (.fin 240) }
  parseDatetime s := if s = "1970-01-01T00:33:25.100Z" then some 2005100000 else none

def atStart : Coordinator Json where
  pending := []
  buffer := { file := none, maxRows := 200000, maxAgeH := 168 }
  online := true
  samplesTotal := 0

def mainsAt (lastUpdated : Time) : State := ⟨"sensor.mains", "240.0", lastUpdated⟩

def outvotedRun : List Event := [.state (some (mainsAt 900000000)), .refresh outvoted, .timer]

theorem lastSync_outvotedRun : lastSync outvotedRun = some outvoted := by
  have hadopted : (adopted outvoted).isSome := by decide +kernel
  simp [lastSync, outvotedRun, Event.sync, hadopted]

theorem stamps_true_outvotedRun :
    let x := run oneMeter atStart [] outvotedRun
    ∃ rows, (x.step oneMeter (.state (some (mainsAt 2000000000)))).world.coordinator.pending =
        x.world.coordinator.pending ++ rows ∧ rows ≠ [] ∧
      ∀ r ∈ rows, ∃ t, stampOf r = some (.str (Python.july.iso t)) ∧
        |seconds t - 2005| ≤ 1 / 2 + 1 / 2 ^ 32 + 1 / 2 / 10 ^ 6 := by
  obtain ⟨rows, hrows, hstamps⟩ := stamps_true oneMeter atStart [] outvotedRun (mainsAt 2000000000)
  refine ⟨rows, hrows, ?_, fun r hr => ?_⟩
  · rintro rfl
    exact absurd (congrArg List.length hrows) (by decide +kernel)
  · obtain ⟨t, hstamp, -, -, hnear⟩ := hstamps r hr
    refine ⟨t, hstamp, ?_⟩
    have hnear := hnear (fun _ => 5) 0 1000 outvoted lastSync_outvotedRun (by simp)
      (outvoted_trusted (by decide +kernel))
    rw [show seconds (mainsAt 2000000000).lastUpdated = 2000 by decide +kernel] at hnear
    norm_num at hnear ⊢
    exact hnear

/-- The echo of a server, as the clock reads 2000 seconds. -/
def echoEvent : Event :=
  .echo 2000000000 (.response 200 (.json (.obj [("server_receive", .str "1970-01-01T00:33:25.100Z")]))) 2000300000

theorem offsets_agree_outvotedRun :
    let x := run oneMeter atStart [] (outvotedRun ++ [echoEvent])
    ∃ ntp transport, x.ntpOffsetMs = some ntp ∧ x.clockOffsetMs = some transport ∧ |transport - ntp| ≤ 652 := by
  have hlast : lastSync (outvotedRun ++ [echoEvent]) = some outvoted := by
    rw [lastSync, List.foldl_append]
    exact lastSync_outvotedRun
  have hechoed : Echoed (fun _ => 5) 2000000000 2000300000 2005100000 :=
    ⟨20051 / 10, by decide +kernel, by decide +kernel, by decide +kernel, by decide +kernel⟩
  obtain ⟨ntp, transport, hntp, htransport, hagree⟩ := offsets_agree oneMeter atStart [] (fun _ => 5) 0 1001
    (outvotedRun ++ [echoEvent]) outvoted 2000000000 2000300000 2005100000 (by simp) hlast
    (outvoted_trusted (by decide +kernel)) (by decide +kernel) hechoed (by decide)
  refine ⟨ntp, transport, hntp, htransport, hagree.trans ?_⟩
  decide +kernel

end Station

end GridWitness.Client
