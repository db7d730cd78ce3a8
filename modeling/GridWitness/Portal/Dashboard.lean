import GridWitness.Library.Blocks
import GridWitness.Server.Account

namespace GridWitness.Portal

open Library Server

/-- The consent groups of the catalogue: a checkbox each, and the channels behind it. -/
def consentGroups : Blocks String Channel :=
  [("frequency", [.frequencyHz]),
   ("voltage", [.voltageV]),
   ("current_power", [.currentA, .powerW, .powerFactor]),
   ("weather", [.temp, .rhum, .wspd, .wdir, .pres, .prcp, .solarRadiationWM2, .uv]),
   ("phase_angle", [.phaseAngleDeg])]

/-- Expand the selected group keys into the channel list the server expects. -/
def channelsForGroups (groupKeys : List String) : List Channel :=
  (consentGroups.expand groupKeys).eraseDups

/-- Map the channel list of a node back to the checkboxes: a group is on with any of its channels. -/
def groupsFromChannels (channels : List Channel) : List String := consentGroups.touching channels

/-- The Manage page of a node, and the form on it as it is posted back. -/
structure ManageNodeVm where
  node : AdminNodeView
  emailConfirmed : Bool
  groups : List String
  locTier : LocTier
  region : Option String := none
  postcode : Option String := none

inductive NodePage
  | view (vm : ManageNodeVm)
  | notFound
  | unreachable (error : String)

/-- What the next page tells the account. -/
inductive TempData
  | message (text : String)
  | error (text : String)

namespace Dashboard

/-- The portal calls the ingest server with its own credential, on behalf of an account. -/
def getNode (s : App) (xGwInternal : Option String) (ref nodeId : String) :
    Except Failure (Option AdminNodeView) :=
  (Admin.listNodes s xGwInternal ref).map fun nodes => nodes.find? (·.nodeId = nodeId)

/-- The Manage page of a node. -/
def node (s : App) (xGwInternal : Option String) (ref : String) (emailConfirmed : Bool) (id : String) :
    NodePage :=
  match getNode s xGwInternal ref id with
  | .error _ => .unreachable "The ingest service could not be reached."
  | .ok none => .notFound
  | .ok (some node) =>
    .view
      { node
        emailConfirmed
        groups := groupsFromChannels node.channels
        locTier := node.locTier }

/-- The update a posted form asks for; frequency is always among the groups. -/
def consentUpdate (vm : ManageNodeVm) : AdminConsentUpdate :=
  let groups := if "frequency" ∈ vm.groups then vm.groups else vm.groups ++ ["frequency"]
  { channels := some (channelsForGroups groups)
    locTier := some vm.locTier
    region := if vm.locTier = .region then vm.region else none
    postcode := if vm.locTier = .dataShare then vm.postcode else none }

def updateNode (rt : Runtime) (s : App) (xGwInternal : Option String) (ref : String)
    (emailConfirmed : Bool) (id : String) (vm : ManageNodeVm) : App × TempData :=
  if !emailConfirmed then
    (s, .error "Confirm your email address before changing what a node shares.")
  else
    match Admin.updateNode rt s xGwInternal id ref (consentUpdate vm) with
    | (s, .ok _) => (s, .message "Sharing settings updated.")
    | (s, .error _) => (s, .error "The change could not be saved. Please try again shortly.")

end Dashboard

end GridWitness.Portal
