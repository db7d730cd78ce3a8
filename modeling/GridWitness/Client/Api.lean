import GridWitness.Server.Runtime
import GridWitness.Server.Catalogue

namespace GridWitness.Client

open Server

/-- A value as `json` decodes it. -/
inductive Json
  | null
  | bool (b : Bool)
  | int (n : Int)
  | float (x : PyFloat)
  | str (s : String)
  | arr (values : List Json)
  | obj (fields : List (String × Json))

/-- Exceptions of Python itself. -/
inductive PyError
  | timeout | value | attribute | type | overflow | recursion
  deriving DecidableEq

/-- A point in time, in microseconds of the Unix epoch. -/
abbrev Time := Int

/-- What the client leans on outside itself: values in messages, `int` on text, and ISO-8601.
`parseIso` reads a naive timestamp as UTC. -/
structure Python where
  str : Json → String
  int : String → Option Int
  iso : Time → String
  parseIso : String → Option Time

/-- A library for concrete runs: whole numbers, and one instant. -/
def Python.july : Python where
  str _ := "None"
  int s := (Runtime.digits s.toList).map Int.ofNat
  iso _ := "2026-07-10T09:00:00.000Z"
  parseIso s := if s = "2026-07-10T09:00:00.000Z" then some 1783674000000000 else none

namespace Json

def truthy : Json → Bool
  | .null => false
  | .bool b => b
  | .int n => n ≠ 0
  | .float x => x ≠ .fin 0
  | .str s => s ≠ ""
  | .arr values => !values.isEmpty
  | .obj fields => !fields.isEmpty

def truncate (q : ℚ) : Int := q.num.tdiv q.den

/-- `int(value)`. -/
def toInt (py : Python) : Json → Except PyError Int
  | .bool b => .ok b.toNat
  | .int n => .ok n
  | .float (.fin q) => .ok (truncate q)
  | .float (.inf _) => .error .overflow
  | .float .nan => .error .value
  | .str s => ((py.int s).map .ok).getD (.error .value)
  | .null | .arr _ | .obj _ => .error .type

end Json

/-- A body as `resp.json(content_type=None)` finds it: blank, JSON, or neither. -/
inductive Body
  | blank
  | json (value : Json)
  | undecodable

/-- How one HTTP exchange ends. -/
inductive Exchange
  | response (status : Nat) (body : Body)
  | clientError (text : String)
  | timeoutError

structure GridWitnessApiError where
  message : String
  status : Option Nat

/-- Worth buffering and trying again. -/
def GridWitnessApiError.retryable (err : GridWitnessApiError) : Bool :=
  match err.status with
  | none => true
  | some status => status == 429 || 500 ≤ status

inductive Raised
  | api (err : GridWitnessApiError)
  | other (e : PyError)

namespace ApiClient

variable (py : Python)

def decode : Body → Except Raised Json
  | .blank => .ok .null
  | .json value => .ok value
  | .undecodable => .error (.other .value)

def detail : Json → Json
  | .obj fields => (fields.lookup "detail").getD .null
  | _ => .null

/-- `_request`: the body is decoded before the status is looked at. -/
def request (path : String) : Exchange → Except Raised Json
  | .timeoutError => .error (.other .timeout)
  | .clientError text => .error (.api ⟨path ++ " transport error: " ++ text, none⟩)
  | .response status body => do
    let value ← decode body
    if 400 ≤ status then
      .error (.api ⟨path ++ " -> " ++ toString status ++ ": " ++ py.str (detail value), some status⟩)
    else if value.truthy then .ok value
    else .ok (.obj [])

def postSamples (ex : Exchange) : Except Raised Json := request py "/v1/samples" ex

end ApiClient

end GridWitness.Client
