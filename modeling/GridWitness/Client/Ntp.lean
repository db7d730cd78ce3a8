import Mathlib.Algebra.Order.Ring.Abs
import GridWitness.Client.Api
import GridWitness.Library.Median

namespace GridWitness.Client

open Library

/-- How one exchange with an NTP server ends: `OSError`, or the readings of the local clock around a
datagram. -/
inductive Poll
  | failed
  | answered (t1 : ℚ) (data : List UInt8) (t4 : ℚ)

namespace Ntp

/-- From 1900 to 1970, in seconds. -/
def ntpUnixDelta : Int := 2208988800

def maxDelayS : ℚ := 1

def minResponses : Int := 2

def maxPlausibleS : ℚ := 30

/-- One `I` of `struct.unpack("!IIII", ..)`. -/
def word (data : List UInt8) (start : Nat) : Nat :=
  ((data.drop start).take 4).foldl (fun n b => 256 * n + b.toNat) 0

/-- NTP fixed point to seconds of the Unix epoch. -/
def toSeconds (hi lo : Nat) : ℚ := ((hi : Int) - ntpUnixDelta : Int) + (lo : ℚ) / 2 ^ 32

/-- The offset and the delay of a reply. -/
def parseOffset (data : List UInt8) (t1 t4 : ℚ) : Except PyError (ℚ × ℚ) :=
  if data.length < 48 then .error .value
  else
    let t2 := toSeconds (word data 32) (word data 36)
    let t3 := toSeconds (word data 40) (word data 44)
    .ok (((t2 - t1) + (t3 - t4)) / 2, (t4 - t1) - (t3 - t2))

/-- The offset of one server, none on a failure or a poor delay. -/
def queryOne : Poll → Option ℚ
  | .failed => none
  | .answered t1 data t4 =>
    match parseOffset data t1 t4 with
    | .error _ => none
    | .ok (offset, delay) => if maxDelayS < delay ∨ delay < 0 then none else some offset

/-- The median offset over the servers, none when too few reply; `median` raises on no offsets. -/
def authoritativeOffset (minResponses : Int) (polls : List Poll) : Except PyError (Option ℚ) :=
  let offsets := polls.filterMap queryOne
  if offsets.length < minResponses then .ok none
  else
    match Median.median offsets with
    | none => .error .value
    | some offset => .ok (some offset)

/-- `_refresh_ntp`: the offset the coordinator stamps with, from the one before. -/
def refreshNtp (offsetS : ℚ) (polls : List Poll) : Except PyError ℚ := do
  match ← authoritativeOffset minResponses polls with
  | none => .ok offsetS
  | some offset => .ok (if maxPlausibleS < |offset| then offsetS else offset)

/-- The polls of some servers, each under its name. -/
abbrev Polls := List (String × Poll)

/-- The offsets that come back, with the servers they come from. -/
def replies (polls : Polls) : List (String × ℚ) :=
  polls.filterMap fun (server, poll) => (queryOne poll).map (server, ·)

section Wrong

variable (wrong : String → Bool)

def wrongOffsets (polls : Polls) : List ℚ := ((replies polls).filter (wrong ·.1)).map (·.2)

def correctOffsets (polls : Polls) : List ℚ := ((replies polls).filter (!wrong ·.1)).map (·.2)

end Wrong

/-- Between the smallest and the largest of some offsets. -/
def Between (offsets : List ℚ) (v : ℚ) : Prop := (∃ lo ∈ offsets, lo ≤ v) ∧ ∃ hi ∈ offsets, v ≤ hi

end Ntp

end GridWitness.Client
