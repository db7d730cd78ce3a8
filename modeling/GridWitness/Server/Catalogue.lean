import Mathlib.Data.List.Sort
import Mathlib.Data.Rat.Defs
import Mathlib.Algebra.Order.Ring.Rat

namespace GridWitness.Server

inductive PyFloat
  | fin (q : ℚ)
  | inf (negative : Bool)
  | nan
  deriving DecidableEq

/-- The chained comparison `lo <= v <= hi`. -/
def PyFloat.between (lo hi : ℚ) : PyFloat → Bool
  | .fin q => lo ≤ q && q ≤ hi
  | .inf _ => false
  | .nan => false

inductive Kind
  | electrical | weather
  deriving DecidableEq

def Kind.value : Kind → String
  | .electrical => "electrical"
  | .weather => "weather"

inductive Channel
  | frequencyHz | voltageV | currentA | powerW | powerFactor | phaseAngleDeg
  | temp | rhum | wspd | wdir | pres | prcp | solarRadiationWM2 | uv
  deriving DecidableEq

def Channel.name : Channel → String
  | .frequencyHz => "frequency_hz"
  | .voltageV => "voltage_v"
  | .currentA => "current_a"
  | .powerW => "power_w"
  | .powerFactor => "power_factor"
  | .phaseAngleDeg => "phase_angle_deg"
  | .temp => "temp"
  | .rhum => "rhum"
  | .wspd => "wspd"
  | .wdir => "wdir"
  | .pres => "pres"
  | .prcp => "prcp"
  | .solarRadiationWM2 => "solar_radiation_w_m2"
  | .uv => "uv"

def channelCatalogue : List (Channel × Kind) :=
  [(.frequencyHz, .electrical), (.voltageV, .electrical), (.currentA, .electrical),
   (.powerW, .electrical), (.powerFactor, .electrical), (.phaseAngleDeg, .electrical),
   (.temp, .weather), (.rhum, .weather), (.wspd, .weather), (.wdir, .weather),
   (.pres, .weather), (.prcp, .weather), (.solarRadiationWM2, .weather), (.uv, .weather)]

def electricalChannels : List Channel :=
  (channelCatalogue.filter (·.2 = .electrical)).map (·.1)

def weatherChannels : List Channel :=
  (channelCatalogue.filter (·.2 = .weather)).map (·.1)

def sorted (channels : List Channel) : List Channel :=
  channels.insertionSort (fun a b => a.name ≤ b.name)

@[simp] theorem mem_sorted {c : Channel} {channels : List Channel} :
    c ∈ sorted channels ↔ c ∈ channels := List.mem_insertionSort _

def listRepr (channels : List Channel) : String :=
  "[" ++ ", ".intercalate (channels.map fun c => "'" ++ c.name ++ "'") ++ "]"

def surveyProducer : String := "gridwitness-survey"

def surveyChannels : List Channel := [.frequencyHz, .voltageV]

inductive LocTier
  | anon | region | dataShare
  deriving DecidableEq

def LocTier.value : LocTier → String
  | .anon => "anon"
  | .region => "region"
  | .dataShare => "data_share"

inductive TsSource
  | device | haReceive | gps
  deriving DecidableEq

inductive Phase
  | l1 | l2 | l3 | single
  deriving DecidableEq

def Phase.value : Phase → String
  | .l1 => "L1"
  | .l2 => "L2"
  | .l3 => "L3"
  | .single => "1p"

def saneFreq (v : Option PyFloat) : Bool := v.all (PyFloat.between 40 70)

/-- A validated electrical row: a frequency outside the plausible band cannot be built. -/
structure ElectricalRow where
  tsUtc : String
  tsSource : TsSource := .haReceive
  phase : Phase := .single
  voltageV : Option PyFloat := none
  currentA : Option PyFloat := none
  powerW : Option PyFloat := none
  powerFactor : Option PyFloat := none
  frequencyHz : Option PyFloat := none
  phaseAngleDeg : Option PyFloat := none
  sane : saneFreq frequencyHz = true := by decide
  deriving DecidableEq

/-- A reading of the mains frequency, for concrete runs. -/
def ElectricalRow.mains (tsUtc : String) : ElectricalRow :=
  { tsUtc := tsUtc, frequencyHz := some (.fin 50) }

def ElectricalRow.getattr (row : ElectricalRow) : Channel → Option PyFloat
  | .voltageV => row.voltageV
  | .currentA => row.currentA
  | .powerW => row.powerW
  | .powerFactor => row.powerFactor
  | .frequencyHz => row.frequencyHz
  | .phaseAngleDeg => row.phaseAngleDeg
  | _ => none

def ElectricalRow.presentChannels (row : ElectricalRow) : List Channel :=
  electricalChannels.filter fun c => (row.getattr c).isSome

structure WeatherRow where
  time : String
  tsSource : {source : TsSource // source ≠ .gps} := ⟨.haReceive, by decide⟩
  temp : Option PyFloat := none
  rhum : Option PyFloat := none
  wspd : Option PyFloat := none
  wdir : Option PyFloat := none
  pres : Option PyFloat := none
  prcp : Option PyFloat := none
  solarRadiationWM2 : Option PyFloat := none
  uv : Option PyFloat := none
  deriving DecidableEq

def WeatherRow.getattr (row : WeatherRow) : Channel → Option PyFloat
  | .temp => row.temp
  | .rhum => row.rhum
  | .wspd => row.wspd
  | .wdir => row.wdir
  | .pres => row.pres
  | .prcp => row.prcp
  | .solarRadiationWM2 => row.solarRadiationWM2
  | .uv => row.uv
  | _ => none

def WeatherRow.presentChannels (row : WeatherRow) : List Channel :=
  weatherChannels.filter fun c => (row.getattr c).isSome

theorem ElectricalRow.mem_presentChannels {row : ElectricalRow} {c : Channel} :
    c ∈ row.presentChannels ↔ (row.getattr c).isSome := by
  simp only [presentChannels, List.mem_filter, and_iff_right_iff_imp]
  cases c <;> simp [getattr, electricalChannels, channelCatalogue]

theorem WeatherRow.mem_presentChannels {row : WeatherRow} {c : Channel} :
    c ∈ row.presentChannels ↔ (row.getattr c).isSome := by
  simp only [presentChannels, List.mem_filter, and_iff_right_iff_imp]
  cases c <;> simp [getattr, weatherChannels, channelCatalogue]

structure RegisterRequest where
  channels : List Channel := [.frequencyHz]
  locTier : LocTier := .anon
  region : Option String := none
  postcode : Option String := none
  deviceType : String := "unknown"
  firmware : Option String := none
  cadenceMs : Option Int := none
  producer : Option String := none
  contributorRef : Option String := none

structure RegisterResponse where
  nodeId : String
  token : String
  locRef : Option String
  cellId : Option String

structure SamplesRequest where
  nodeId : String
  electrical : List ElectricalRow := []
  weather : List WeatherRow := []

structure RejectedRow where
  index : Nat
  kind : Kind
  reason : String
  deriving DecidableEq

structure SamplesResponse where
  accepted : Nat
  duplicates : Nat
  rejected : List RejectedRow
  deriving DecidableEq

structure ConsentUpdate where
  nodeId : String
  channels : Option (List Channel) := none
  locTier : Option LocTier := none
  region : Option String := none
  postcode : Option String := none

structure AdminConsentUpdate where
  channels : Option (List Channel) := none
  locTier : Option LocTier := none
  region : Option String := none
  postcode : Option String := none

end GridWitness.Server
