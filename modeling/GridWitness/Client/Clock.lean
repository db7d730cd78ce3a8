import GridWitness.Client.Capture
import GridWitness.Client.Ntp
import GridWitness.Client.Process
import GridWitness.Library.Rounding

namespace GridWitness.Client

open Library Ntp Rounding

universe u

/-- `timedelta(seconds=offset)`. -/
def microseconds (offsetS : ℚ) : Time := halfEven (offsetS * 10 ^ 6)

def seconds (t : Time) : ℚ := t / 10 ^ 6

def ApiClient.timeEcho (py : Python) (ex : Exchange) : Except Raised Json :=
  request py "/v1/time-echo" ex

/-- A coordinator with its two clock offsets: `clockOffsetMs` is that of the transport, and `ntpOffsetS`
is what the stamps are corrected by. -/
structure Station (Line : Type u) where
  world : World Line
  clockOffsetMs : Option ℚ
  ntpOffsetMs : Option ℚ
  ntpOffsetS : ℚ

/-- What happens at a node between two awaits: `refresh` and `echo` are the ends of `_refresh_ntp` and
`_update_offset`. -/
inductive Station.Event
  | state (new : Option State)
  | refresh (polls : Polls)
  | echo (t0 : Time) (answer : Exchange) (t1 : Time)
  | timer
  | resume (i : Nat) (answer : Answer)

variable {Line : Type u}

namespace Station

/-- What a client leans on outside itself. `parseDatetime` gives no time for a text without a zone, whose
difference from one with a zone raises. -/
structure Setup (Line : Type u) where
  py : Python
  codec : Codec Line
  sensors : Sensors
  parseDatetime : String → Option Time

variable (k : Setup Line)

def start (c : Coordinator Line) (buffered : List Captured) : Station Line :=
  ⟨World.start c buffered, none, none, 0⟩

/-- `_refresh_ntp`, from how its exchanges end. -/
def refreshNtp (x : Station Line) (polls : Polls) : Station Line :=
  match authoritativeOffset minResponses (polls.map (·.2)) with
  | .error _ => x
  | .ok none => x
  | .ok (some offsetS) =>
    if maxPlausibleS < |offsetS| then x
    else { x with ntpOffsetS := offsetS, ntpOffsetMs := some (decimals 1 (offsetS * 1000)) }

/-- The time of the server in a reply to a time echo. -/
def serverReceive : Json → Option Time
  | .obj fields =>
    match fields.lookup "server_receive" with
    | some (.str s) => k.parseDatetime s
    | _ => none
  | _ => none

/-- How far the server is ahead, in milliseconds, of the middle between two readings of the clock. -/
def transportOffset (t0 t1 server : Time) : ℚ :=
  decimals 1 ((server - (t0 + halfEven ((t1 - t0 : Int) / 2)) : Int) / 1000)

/-- `_update_offset`. What it raises ends its flush, and leaves the offset as it is. -/
def updateOffset (x : Station Line) (t0 : Time) (answer : Exchange) (t1 : Time) : Station Line :=
  match ApiClient.timeEcho k.py answer with
  | .error _ => x
  | .ok resp =>
    match serverReceive k resp with
    | none => x
    | some server => { x with clockOffsetMs := some (transportOffset t0 t1 server) }

def step (x : Station Line) : Event → Station Line
  | .state new =>
    let rows := onStateEvent k.py k.sensors (microseconds x.ntpOffsetS) new
    { x with world := x.world.step k.py k.codec (.capture rows) }
  | .refresh polls => x.refreshNtp polls
  | .echo t0 answer t1 => x.updateOffset k t0 answer t1
  | .timer => { x with world := x.world.step k.py k.codec .timer }
  | .resume i answer => { x with world := x.world.step k.py k.codec (.resume i answer) }

def run (c : Coordinator Line) (buffered : List Captured) (events : List Event) : Station Line :=
  events.foldl (step k) (start c buffered)

end Station

end GridWitness.Client
