import GridWitness.Server.Database
import GridWitness.Server.Runtime

namespace GridWitness.Server

/-- A value in a staging dict, as the CSV writer receives it. -/
inductive Cell
  | null
  | num (v : PyFloat)
  | int (n : Int)
  | text (s : String)
  deriving DecidableEq

def Cell.ofFloat : Option PyFloat → Cell
  | none => .null
  | some v => .num v

def Cell.ofInt : Option Int → Cell
  | none => .null
  | some n => .int n

def Cell.ofText : Option String → Cell
  | none => .null
  | some s => .text s

/-- A Python dict with string keys. -/
abbrev Row := List (String × Cell)

def Row.get (r : Row) (column : String) : Cell := (List.lookup column r).getD .null

def electricalCsvColumns : List String :=
  ["node_id", "ts_utc", "ts_source", "phase",
   "voltage_v", "current_a", "power_w", "power_factor",
   "frequency_hz", "phase_angle_deg",
   "device_type", "firmware", "cadence_ms", "loc_tier", "loc_ref"]

def weatherCsvColumns : List String :=
  ["node_id", "time", "ts_source",
   "temp", "rhum", "wspd", "wdir", "pres", "prcp", "solar_radiation_w_m2", "uv",
   "device_type", "loc_tier", "loc_ref", "cell_id"]

def TsSource.value : TsSource → String
  | .device => "device"
  | .haReceive => "ha_receive"
  | .gps => "gps"

def projectElectrical (row : ElectricalRow) (node : Node) : Row :=
  [("node_id", .text node.nodeId),
   ("ts_utc", .text row.tsUtc),
   ("ts_source", .text row.tsSource.value),
   ("phase", .text row.phase.value),
   ("voltage_v", .ofFloat row.voltageV),
   ("current_a", .ofFloat row.currentA),
   ("power_w", .ofFloat row.powerW),
   ("power_factor", .ofFloat row.powerFactor),
   ("frequency_hz", .ofFloat row.frequencyHz),
   ("phase_angle_deg", .ofFloat row.phaseAngleDeg),
   ("device_type", .text node.deviceType),
   ("firmware", .ofText node.firmware),
   ("cadence_ms", .ofInt node.cadenceMs),
   ("loc_tier", .text node.locTier.value),
   ("loc_ref", .ofText node.locRef)]

def projectWeather (row : WeatherRow) (node : Node) : Row :=
  [("node_id", .text node.nodeId),
   ("time", .text row.time),
   ("ts_source", .text row.tsSource.1.value),
   ("temp", .ofFloat row.temp),
   ("rhum", .ofFloat row.rhum),
   ("wspd", .ofFloat row.wspd),
   ("wdir", .ofFloat row.wdir),
   ("pres", .ofFloat row.pres),
   ("prcp", .ofFloat row.prcp),
   ("solar_radiation_w_m2", .ofFloat row.solarRadiationWM2),
   ("uv", .ofFloat row.uv),
   ("device_type", .text node.deviceType),
   ("loc_tier", .text node.locTier.value),
   ("loc_ref", .ofText node.locRef),
   ("cell_id", .ofText node.cellId)]

@[simp] theorem Cell.ofFloat_eq_null {v : Option PyFloat} : Cell.ofFloat v = .null ↔ v = none := by
  cases v <;> simp [Cell.ofFloat]

/-- A channel column of the projection is null exactly where the row has no value. -/
theorem projectElectrical_channel {row : ElectricalRow} {node : Node} {c : Channel} :
    (projectElectrical row node).get c.name ≠ .null ↔ c ∈ row.presentChannels := by
  have hget : (projectElectrical row node).get c.name = .ofFloat (row.getattr c) := by
    cases c <;> rfl
  rw [hget, ne_eq, Cell.ofFloat_eq_null, ElectricalRow.mem_presentChannels, Option.isSome_iff_ne_none]

theorem projectWeather_channel {row : WeatherRow} {node : Node} {c : Channel} :
    (projectWeather row node).get c.name ≠ .null ↔ c ∈ row.presentChannels := by
  have hget : (projectWeather row node).get c.name = .ofFloat (row.getattr c) := by
    cases c <;> rfl
  rw [hget, ne_eq, Cell.ofFloat_eq_null, WeatherRow.mem_presentChannels, Option.isSome_iff_ne_none]

def postcodeAreaRegion : List (String × String) :=
  [("AB", "GSP_NORTH_SCOTLAND"), ("IV", "GSP_NORTH_SCOTLAND"), ("KW", "GSP_NORTH_SCOTLAND"),
   ("G", "GSP_CENTRAL_SCOTLAND"), ("EH", "GSP_SOUTH_SCOTLAND"), ("DD", "GSP_CENTRAL_SCOTLAND"),
   ("NE", "GSP_NORTH_EAST"), ("DH", "GSP_NORTH_EAST"), ("SR", "GSP_NORTH_EAST"),
   ("M", "GSP_NORTH_WEST"), ("L", "GSP_MERSEY"), ("PR", "GSP_NORTH_WEST"),
   ("LS", "GSP_YORKSHIRE"), ("S", "GSP_YORKSHIRE"), ("HD", "GSP_YORKSHIRE"),
   ("B", "GSP_MIDLANDS"), ("CV", "GSP_MIDLANDS"), ("WV", "GSP_MIDLANDS"),
   ("NG", "GSP_EAST_MIDLANDS"), ("LE", "GSP_EAST_MIDLANDS"), ("DE", "GSP_EAST_MIDLANDS"),
   ("NR", "GSP_EAST_ENGLAND"), ("CB", "GSP_EAST_ENGLAND"), ("IP", "GSP_EAST_ENGLAND"),
   ("N", "GSP_LONDON"), ("E", "GSP_LONDON"), ("SW", "GSP_LONDON"), ("SE", "GSP_LONDON"),
   ("W", "GSP_LONDON"), ("EC", "GSP_LONDON"), ("WC", "GSP_LONDON"),
   ("CF", "GSP_SOUTH_WALES"), ("SA", "GSP_SOUTH_WALES"), ("NP", "GSP_SOUTH_WALES"),
   ("BS", "GSP_SOUTH_WEST"), ("EX", "GSP_SOUTH_WEST"), ("PL", "GSP_SOUTH_WEST"),
   ("TR", "GSP_SOUTH_WEST"),
   ("SO", "GSP_SOUTHERN"), ("PO", "GSP_SOUTHERN"), ("RG", "GSP_SOUTHERN"), ("OX", "GSP_SOUTHERN"),
   ("ME", "GSP_SOUTH_EAST"), ("CT", "GSP_SOUTH_EAST"), ("TN", "GSP_SOUTH_EAST"),
   ("BN", "GSP_SOUTH_EAST")]

def postcodeArea (rt : Runtime) (postcode : String) : String :=
  String.ofList ((rt.upper (rt.strip postcode)).toList.takeWhile rt.isalpha)

/-- The geo-IP lookup as shipped: no database is ever wired in, and none is consulted. -/
def regionFromIp (clientIp : Option String) (geoipMmdb : Option String) : Option String :=
  if geoipMmdb.isNone || clientIp.isNone then none else none

structure Location where
  locRef : Option String
  cellId : Option String
  storedPostcode : Option String
  rawRegion : Option String

/-- Python truth of an optional string. -/
def truthy (s : Option String) : Bool := s.any (· ≠ "")

def resolveLocation (rt : Runtime) (locTier : LocTier) (postcode region clientIp : Option String)
    (geoipMmdb : Option String) : Location :=
  match locTier with
  | .region =>
    { locRef := if truthy region then some ("DNO_" ++ region.getD "") else none
      cellId := none, storedPostcode := none, rawRegion := none }
  | .dataShare =>
    { locRef :=
        if truthy postcode then
          some ((List.lookup (postcodeArea rt (postcode.getD "")) postcodeAreaRegion).getD
            "GSP_UNKNOWN")
        else none
      cellId := none, storedPostcode := postcode, rawRegion := none }
  | .anon =>
    let rawRegion := regionFromIp clientIp geoipMmdb
    { locRef := rawRegion, cellId := none, storedPostcode := none, rawRegion }

end GridWitness.Server
