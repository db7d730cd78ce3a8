import GridWitness.Client.ConfigFlow
import GridWitness.Library.Pattern
import GridWitness.Library.Text
import GridWitness.Server.Privacy

namespace GridWitness.Client

open Library Server

/-- A character whose case is ignored. Of those in use only `s` has a variant outside ASCII. -/
def caseless (letter : Char) : Pattern :=
  .one fun c => c.toLower = letter || (letter = 's' && c = 'ſ')

/-- `[_\s]`. -/
def isSeparator (c : Char) : Bool := c = '_' || Text.isSpace c

def separator : Pattern := .one isSeparator

def underscore : Pattern := .one (· = '_')

/-- `ph`. -/
def phWord : Pattern := .seq (caseless 'p') (caseless 'h')

/-- `phase`. -/
def phaseWord : Pattern := .seq phWord (.seq (caseless 'a') (.seq (caseless 's') (caseless 'e')))

/-- A phase, with the digit and the letter that name it in a token. -/
structure PhaseToken where
  digit : Char
  letter : Char
  phase : String
  deriving DecidableEq

namespace PhaseToken

variable (t : PhaseToken)

/-- `l1|phase[_\s]?1|phase[_\s]?a|ph_?a`. -/
def token : Pattern :=
  .alt (.seq (caseless 'l') (caseless t.digit))
    (.alt (.seq phaseWord (.seq (.opt separator) (caseless t.digit)))
      (.alt (.seq phaseWord (.seq (.opt separator) (caseless t.letter)))
        (.seq phWord (.seq (.opt underscore) (caseless t.letter)))))

/-- `(?:^|[_\s])(?:l1|phase[_\s]?1|phase[_\s]?a|ph_?a)(?:$|[_\s])`. -/
def rx : Pattern := .seq (.alt .start separator) (.seq t.token (.alt .stop separator))

end PhaseToken

def phaseTokens : List PhaseToken := [⟨'1', 'a', "L1"⟩, ⟨'2', 'b', "L2"⟩, ⟨'3', 'c', "L3"⟩]

/-- The first phase whose pattern is found in a text. -/
def searchPhase (text : String) : Option PhaseToken := phaseTokens.find? fun t => t.rx.search text.toList

/-- `_infer_phase`. -/
def inferPhase (texts : List (Option String)) : String :=
  match texts.findSome? fun text => if truthy text then searchPhase (text.getD "") else none with
  | some t => t.phase
  | none => "1p"

def deviceClassChannels : List (String × String) :=
  [("voltage", "voltage_v"),
   ("current", "current_a"),
   ("power", "power_w"),
   ("power_factor", "power_factor"),
   ("frequency", "frequency_hz"),
   ("temperature", "temp"),
   ("humidity", "rhum"),
   ("wind_speed", "wspd"),
   ("wind_direction", "wdir"),
   ("pressure", "pres"),
   ("atmospheric_pressure", "pres"),
   ("precipitation", "prcp"),
   ("precipitation_intensity", "prcp"),
   ("irradiance", "solar_radiation_w_m2")]

def groupDeviceClasses : List (String × List String) :=
  [("frequency", ["frequency"]),
   ("voltage", ["voltage"]),
   ("current_power", ["current", "power", "power_factor"]),
   ("weather",
    ["temperature", "humidity", "wind_speed", "wind_direction", "pressure", "atmospheric_pressure",
     "precipitation", "precipitation_intensity", "irradiance"])]

/-- An entity of the registry. The domain and the object id make up its id. -/
structure RegistryEntry where
  domain : String
  objectId : String
  disabled : Bool := false
  name : Option String := none
  originalName : Option String := none
  deviceClass : Option String := none
  originalDeviceClass : Option String := none

def RegistryEntry.entityId (entry : RegistryEntry) : String := entry.domain ++ "." ++ entry.objectId

/-- `a or b`. -/
def firstTruthy (a b : Option String) : Option String := if truthy a then a else b

/-- `_device_class_of`: what the state of an entity says, or else its entry. -/
def deviceClassOf (stateClass : String → Option String) (entry : RegistryEntry) : Option String :=
  firstTruthy (stateClass entry.entityId) (firstTruthy entry.deviceClass entry.originalDeviceClass)

def groupOf (deviceClass : String) : Option String :=
  (groupDeviceClasses.find? fun (_, classes) => deviceClass ∈ classes).map (·.1)

def entryName (entry : RegistryEntry) : String :=
  (firstTruthy (firstTruthy entry.name entry.originalName) (some entry.entityId)).getD ""

/-- What an entity of the registry is a candidate for: its group, and how it would be mapped. -/
def candidateOf (stateClass : String → Option String) (entry : RegistryEntry) :
    Option (String × Candidate) :=
  if entry.disabled ∨ entry.domain ≠ "sensor" then none
  else
    (deviceClassOf stateClass entry).bind fun dc =>
      match deviceClassChannels.lookup dc, groupOf dc with
      | some channel, some group =>
        let phase :=
          if channel = "frequency_hz" then "1p"
          else inferPhase [some entry.entityId, some (entryName entry)]
        some (group, ⟨entry.entityId, channel, phase⟩)
      | _, _ => none

/-- `discover`. The state of an entity may carry a device class of its own. -/
def discover (stateClass : String → Option String) (registry : List RegistryEntry) : Discovery where
  groups :=
    (registry.filterMap (candidateOf stateClass)).foldl
      (fun groups found => Bucket.add found.1 found.2 groups)
      (consentGroups.map fun (group, _) => (group, []))

end GridWitness.Client
