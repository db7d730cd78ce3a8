import GridWitness.Client.Coordinator

namespace GridWitness.Client

open Server

def electricalChannelNames : List String :=
  ["frequency_hz", "voltage_v", "current_a", "power_w", "power_factor", "phase_angle_deg"]

def weatherChannelNames : List String :=
  ["temp", "rhum", "wspd", "wdir", "pres", "prcp", "solar_radiation_w_m2", "uv"]

def unavailable : List String := ["unknown", "unavailable", "none", ""]

structure MappingEntry where
  entityId : String
  phase : Option String

/-- What a client is set up with: the entities of each channel, and `float` on text. -/
structure Sensors where
  mapping : List (String × List MappingEntry)
  float : String → Option PyFloat

/-- A state of Home Assistant. -/
structure State where
  entityId : String
  state : String
  lastUpdated : Time

namespace Sensors

variable (sensors : Sensors)

/-- The channels and phases an entity is mapped to. -/
def index (entityId : String) : List (String × String) :=
  sensors.mapping.flatMap fun (channel, entries) =>
    entries.filterMap fun e =>
      if e.entityId = entityId then some (channel, e.phase.getD "1p") else none

end Sensors

def electricalReading (ts phase channel : String) (value : PyFloat) : Captured :=
  (.electrical, .obj
    [("ts_utc", .str ts), ("ts_source", .str "ha_receive"), ("phase", .str phase),
     (channel, .float value)])

def weatherReading (ts channel : String) (value : PyFloat) : Captured :=
  (.weather, .obj [("time", .str ts), ("ts_source", .str "ha_receive"), (channel, .float value)])

/-- `_on_state_event`: the rows it puts behind those pending. `offset` is that of the node clock. -/
def onStateEvent (py : Python) (sensors : Sensors) (offset : Time) : Option State → List Captured
  | none => []
  | some new =>
    if new.state ∈ unavailable then []
    else
      match sensors.float new.state with
      | none => []
      | some value =>
        let ts := py.iso (new.lastUpdated + offset)
        (sensors.index new.entityId).filterMap fun (channel, phase) =>
          if channel ∈ electricalChannelNames then some (electricalReading ts phase channel value)
          else if channel ∈ weatherChannelNames then some (weatherReading ts channel value)
          else none

end GridWitness.Client
