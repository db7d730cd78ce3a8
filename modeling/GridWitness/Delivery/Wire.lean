import GridWitness.Client.Coordinator
import GridWitness.Server.RoutesLaws

namespace GridWitness.Delivery

open Client Server

/-- What the server leans on pydantic for: a number in a text, and what is wrong with a body. -/
structure Pydantic where
  float : String → Option PyFloat
  errors : List Json → List Json → List Json

/-- Pydantic for concrete runs: whole numbers in texts, and errors without their details. -/
def Pydantic.plain : Pydantic where
  float s := (Runtime.digits s.toList).map fun n => .fin n
  errors _ _ := []

section Rows

variable (pyd : Pydantic) (fields : List (String × Json))

/-- A field `float | None = None`. -/
def number (c : Channel) : Option (Option PyFloat) :=
  match fields.lookup c.name with
  | none => some none
  | some .null => some none
  | some (.bool b) => some (some (.fin b.toNat))
  | some (.int n) => (pyd.float (toString n)).map some
  | some (.float x) => some (some x)
  | some (.str s) => (pyd.float s).map some
  | some (.arr _) => none
  | some (.obj _) => none

def text (name : String) : Option String :=
  match fields.lookup name with
  | some (.str s) => some s
  | _ => none

/-- A field of literals with a default. -/
def literal {α : Type} (options : List α) (value : α → String) (default : α) (name : String) :
    Option α :=
  match fields.lookup name with
  | none => some default
  | some (.str s) => options.find? (value · = s)
  | some _ => none

/-- `ElectricalRow`, from the fields of an object. -/
def electricalFields : Option ElectricalRow := do
  let tsUtc ← text fields "ts_utc"
  let tsSource ← literal fields [.device, .haReceive, .gps] TsSource.value .haReceive "ts_source"
  let phase ← literal fields [.l1, .l2, .l3, .single] Server.Phase.value .single "phase"
  let voltageV ← number pyd fields .voltageV
  let currentA ← number pyd fields .currentA
  let powerW ← number pyd fields .powerW
  let powerFactor ← number pyd fields .powerFactor
  let frequencyHz ← number pyd fields .frequencyHz
  let phaseAngleDeg ← number pyd fields .phaseAngleDeg
  if sane : saneFreq frequencyHz = true then
    some { tsUtc, tsSource, phase, voltageV, currentA, powerW, powerFactor, frequencyHz,
           phaseAngleDeg, sane }
  else none

/-- `WeatherRow`, from the fields of an object. -/
def weatherFields : Option WeatherRow := do
  let time ← text fields "time"
  let tsSource ← literal fields [⟨.device, by decide⟩, ⟨.haReceive, by decide⟩]
    (fun source : {source : TsSource // source ≠ .gps} => source.1.value)
    ⟨.haReceive, by decide⟩ "ts_source"
  let temp ← number pyd fields .temp
  let rhum ← number pyd fields .rhum
  let wspd ← number pyd fields .wspd
  let wdir ← number pyd fields .wdir
  let pres ← number pyd fields .pres
  let prcp ← number pyd fields .prcp
  let solarRadiationWM2 ← number pyd fields .solarRadiationWM2
  let uv ← number pyd fields .uv
  some { time, tsSource, temp, rhum, wspd, wdir, pres, prcp, solarRadiationWM2, uv }

end Rows

def electricalRow (pyd : Pydantic) : Json → Option ElectricalRow
  | .obj fields => electricalFields pyd fields
  | _ => none

def weatherRow (pyd : Pydantic) : Json → Option WeatherRow
  | .obj fields => weatherFields pyd fields
  | _ => none

/-- The body of `POST /v1/samples` with its bearer header. -/
structure Post where
  authorization : Option String
  nodeId : String
  electrical : List Json
  weather : List Json

/-- The validated body: none when any of its rows is invalid. -/
def Post.validated (pyd : Pydantic) (p : Post) : Option SamplesRequest :=
  if p.electrical.all (electricalRow pyd · |>.isSome) && p.weather.all (weatherRow pyd · |>.isSome) then
    some
      { nodeId := p.nodeId
        electrical := p.electrical.filterMap (electricalRow pyd)
        weather := p.weather.filterMap (weatherRow pyd) }
  else none

section Answer

def errorCode (status : Nat) : String :=
  (List.lookup status
    [(400, "bad_request"), (401, "unauthorized"), (404, "not_found"), (409, "conflict"),
     (429, "rate_limited"), (503, "backpressure")]).getD "error"

def rejectedJson (r : RejectedRow) : Json :=
  .obj [("index", .int r.index), ("kind", .str r.kind.value), ("reason", .str r.reason)]

/-- How the app answers: its normal answer, the envelope of an `HTTPException`, and the plain text
that any other exception ends in. -/
def answer : Except Failure SamplesResponse → Exchange
  | .ok r =>
    .response 200 (.json (.obj
      [("accepted", .int r.accepted), ("duplicates", .int r.duplicates),
       ("rejected", .arr (r.rejected.map rejectedJson))]))
  | .error (.http status detail) =>
    .response status (.json (.obj [("error", .str (errorCode status)), ("detail", .str detail)]))
  | .error .exception => .response 500 .undecodable

/-- `_validation_exc`. -/
def validationExc (pyd : Pydantic) (p : Post) : Exchange :=
  .response 400 (.json (.obj
    [("error", .str "validation"), ("detail", .arr (pyd.errors p.electrical p.weather))]))

/-- `POST /v1/samples`: the bearer header first, then the body, then the route. -/
def serve (pyd : Pydantic) (rt : Runtime) (s : App) (p : Post) (monotonic : ℚ)
    (electricalFault weatherFault : Option AppendFault) : App × Exchange :=
  match requireBearer rt p.authorization with
  | .error e => (s, answer (.error e))
  | .ok _ =>
    match p.validated pyd with
    | none => (s, validationExc pyd p)
    | some body =>
      let (s, r) := postSamples rt s
        { authorization := p.authorization, body, monotonic, electricalFault, weatherFault }
      (s, answer r)

end Answer

end GridWitness.Delivery
