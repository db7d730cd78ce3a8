import GridWitness.Client.Capture
import GridWitness.Library.Blocks
import GridWitness.Library.Bucket

namespace GridWitness.Client

open Library Server

/-- The consent groups of the integration, with their channels. -/
def consentGroups : Blocks String String :=
  [("frequency", ["frequency_hz"]),
   ("voltage", ["voltage_v"]),
   ("current_power", ["current_a", "power_w", "power_factor"]),
   ("weather", ["temp", "rhum", "wspd", "wdir", "pres", "prcp", "solar_radiation_w_m2", "uv"])]

def channelsFromGroups (enabledGroups : List String) : List String :=
  enabledGroups.flatMap fun group => (consentGroups.lookup group).getD []

/-- A sensor entity that could feed a channel. -/
structure Candidate where
  entityId : String
  channel : String
  phase : String

/-- What discovery found, by consent group. -/
structure Discovery where
  groups : List (String × List Candidate)

abbrev Mapping := List (String × List MappingEntry)

/-- The default mapping: one entity for frequency, all candidates for the rest. -/
def proposeMapping (discovery : Discovery) : Mapping :=
  (discovery.groups.flatMap (·.2)).foldl
    (fun mapping cand =>
      if cand.channel = "frequency_hz" ∧ "frequency_hz" ∈ Bucket.keys mapping then mapping
      else Bucket.add cand.channel ⟨cand.entityId, some cand.phase⟩ mapping)
    []

/-- Keep the entities of some channels. -/
def Mapping.keep (mapping : Mapping) (channels : List String) : Mapping :=
  mapping.filter fun (ch, _) => ch ∈ channels

structure EntryData where
  serverUrl : String
  allowInsecure : Bool
  nodeId : String
  token : String
  channels : List String
  locTier : String
  locRef : Option String
  mapping : Mapping

/-- What the settings panel stores; it overlays the data of the entry. -/
structure EntryOptions where
  channels : List String
  mapping : Mapping
  locTier : String
  locRef : Option String

structure ConfigEntry where
  data : EntryData
  options : Option EntryOptions := none

/-- `{**entry.data, **entry.options}`. -/
def ConfigEntry.current (entry : ConfigEntry) : EntryData :=
  match entry.options with
  | none => entry.data
  | some o =>
    { entry.data with channels := o.channels, mapping := o.mapping, locTier := o.locTier, locRef := o.locRef }

/-- The answers a flow has gathered: what is ticked, the tier, and what the tier's own step asked for. -/
structure ConsentInput where
  share : String → Bool
  locTier : String
  region : Option String := none
  postcode : Option String := none

def ConsentInput.enabled (input : ConsentInput) : List String :=
  (consentGroups.map (·.1)).filter input.share

/-- What either flow sends to the server. -/
structure ConsentPayload where
  channels : List String
  locTier : String
  region : Option String
  postcode : Option String

/-- The channels a screen stands for; frequency is shared when nothing is ticked. -/
def ConsentInput.channels (input : ConsentInput) : List String :=
  let channels := channelsFromGroups input.enabled
  if channels = [] then ["frequency_hz"] else channels

def ConsentInput.payload (input : ConsentInput) : ConsentPayload where
  channels := input.channels
  locTier := input.locTier
  region := input.region
  postcode := input.postcode

structure Registered where
  nodeId : String
  token : String
  locRef : Option String

/-- `_async_register_and_create`: no entry where the server does not register the node, or where the
node is configured already. -/
def registerAndCreate (register : ConsentPayload → Option Registered)
    (configured : List String) (serverUrl : String) (allowInsecure : Bool) (discovery : Discovery)
    (input : ConsentInput) : Option ConfigEntry :=
  match register input.payload with
  | none => none
  | some resp =>
    if resp.nodeId ∈ configured then none
    else
      some
        { data :=
            { serverUrl
              allowInsecure
              nodeId := resp.nodeId
              token := resp.token
              channels := input.channels
              locTier := input.locTier
              locRef := resp.locRef
              mapping := (proposeMapping discovery).keep input.channels } }

/-- A sharing edit, and how the server answers its PATCH: with a location reference, or with an error. -/
structure SharingEdit where
  input : ConsentInput
  updateConsent : String → String → ConsentPayload → Option (Option String)

/-- `_apply`: none is an abort, which stores nothing. -/
def ConfigEntry.apply (entry : ConfigEntry) (edit : SharingEdit) : Option EntryOptions :=
  let current := entry.current
  (edit.updateConsent current.nodeId current.token edit.input.payload).map fun locRef =>
    { channels := edit.input.channels
      mapping := current.mapping.keep edit.input.channels
      locTier := edit.input.locTier
      locRef }

def ConfigEntry.edit (entry : ConfigEntry) (edit : SharingEdit) : ConfigEntry :=
  match entry.apply edit with
  | none => entry
  | some options => { entry with options := some options }

end GridWitness.Client
