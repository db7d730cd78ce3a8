import GridWitness.Server.History

namespace GridWitness.Server

open Library

/-- The body of an answer, but for the node id that a request for an account names and that comes back. -/
inductive Response
  | registered (response : RegisterResponse)
  | samples (response : SamplesResponse)
  | located (locRef : Option String)
  | deleted (deleted : Bool)
  | uploaded (response : SurveyUploadResponse)

/-- How the server answers a request. -/
def App.answer (rt : Runtime) (s : App) : Request → Except Failure Response
  | .register body xGwInternal clientIp draw =>
    (register rt s body xGwInternal clientIp draw).2.map .registered
  | .samples c => (postSamples rt s c).2.map .samples
  | .updateNode authorization body clientIp =>
    (updateNode rt s authorization body clientIp).2.map .located
  | .deleteNode authorization nodeId now =>
    (deleteNode rt s authorization nodeId now).2.map .deleted
  | .adminUpdateNode xGwInternal nodeId contributorRef body =>
    (Admin.updateNode rt s xGwInternal nodeId contributorRef body).2.map .located
  | .adminDeleteNode xGwInternal nodeId contributorRef now =>
    (Admin.deleteNode s xGwInternal nodeId contributorRef now).2.map .deleted
  | .surveyUpload xGwInternal form draw uploadedUtc =>
    (surveyUpload rt s xGwInternal form draw uploadedUtc).2.map .uploaded

namespace Request

/-- What a request that creates a node draws for it. -/
def draw : Request → Option Draw
  | .register _ _ _ draw => some draw
  | .surveyUpload _ _ draw _ => some draw
  | _ => none

/-- The `X-GW-Internal` header. -/
def credential : Request → Option String
  | .register _ xGwInternal _ _ => xGwInternal
  | .adminUpdateNode xGwInternal _ _ _ => xGwInternal
  | .adminDeleteNode xGwInternal _ _ _ => xGwInternal
  | .surveyUpload xGwInternal _ _ _ => xGwInternal
  | _ => none

/-- The `Authorization` header of a bearer request and the node it names. -/
def bearer : Request → Option (Option String × String)
  | .samples c => some (c.authorization, c.body.nodeId)
  | .updateNode authorization body _ => some (authorization, body.nodeId)
  | .deleteNode authorization nodeId _ => some (authorization, nodeId)
  | _ => none

/-- The node and the account an admin request names. -/
def admin : Request → Option (String × String)
  | .adminUpdateNode _ nodeId contributorRef _ => some (nodeId, contributorRef)
  | .adminDeleteNode _ nodeId contributorRef _ => some (nodeId, contributorRef)
  | _ => none

/-- The location a request sets, resolved, and the node it sets it for. -/
def location (rt : Runtime) : Request → Option (String × LocTier × Location)
  | .register body _ clientIp draw =>
    some (draw.nodeId, body.locTier,
      resolveLocation rt body.locTier body.postcode body.region clientIp none)
  | .updateNode _ body clientIp =>
    body.locTier.map fun tier =>
      (body.nodeId, tier, resolveLocation rt tier body.postcode body.region clientIp none)
  | .adminUpdateNode _ nodeId _ body =>
    body.locTier.map fun tier =>
      (nodeId, tier, resolveLocation rt tier body.postcode body.region none none)
  | .surveyUpload _ form draw _ =>
    (surveyTier form.locTier).map fun tier =>
      (draw.nodeId, tier, resolveLocation rt tier form.postcode form.region none none)
  | _ => none

end Request

/-- The four fields in which a resolved location is stored. -/
def Location.stored (tier : LocTier) (loc : Location) : Database.LocationUpdate where
  locTier := tier
  locRef := loc.locRef
  cellId := loc.cellId
  postcode := loc.storedPostcode

/-- The arguments with which a handler calls `update_consent`. -/
structure ConsentArgs where
  nodeId : String
  channels : Option (List Channel)
  locTier : Option LocTier
  locRef : Option String
  cellId : Option String
  postcode : Option String

def ConsentArgs.location (a : ConsentArgs) : Option Database.LocationUpdate :=
  a.locTier.map fun tier => ⟨tier, a.locRef, a.cellId, a.postcode⟩

def ConsentArgs.call (a : ConsentArgs) (db : Database) : Database :=
  db.updateConsent a.nodeId a.channels a.location

/-- What a handler leaves behind, by the arguments it has come to. -/
def App.consent (s : App) : Except Failure ConsentArgs → App
  | .error _ => s
  | .ok args => { s with db := args.call s.db }

/-- The arguments a handler computes from the node it has read; without a tier the location
is the one it has read. -/
def consentArgs (rt : Runtime) (node : Node) (channels : Option (List Channel))
    (locTier : Option LocTier) (region postcode clientIp : Option String) :
    Except Failure ConsentArgs :=
  match locTier with
  | none => .ok ⟨node.nodeId, channels, none, node.locRef, node.cellId, none⟩
  | some tier =>
    match checkLocation tier region postcode with
    | .error e => .error e
    | .ok () =>
      let loc := resolveLocation rt tier postcode region clientIp none
      .ok ⟨node.nodeId, channels, some tier, loc.locRef, loc.cellId, loc.storedPostcode⟩

/-- A `PATCH` request, of a node or of its account. -/
inductive Patch
  | byNode (authorization : Option String) (body : ConsentUpdate) (clientIp : Option String)
  | byAccount (xGwInternal : Option String) (nodeId contributorRef : String)
      (body : AdminConsentUpdate)

namespace Patch

def request : Patch → Request
  | .byNode authorization body clientIp => .updateNode authorization body clientIp
  | .byAccount xGwInternal nodeId contributorRef body =>
    .adminUpdateNode xGwInternal nodeId contributorRef body

def nodeId : Patch → String
  | .byNode _ body _ => body.nodeId
  | .byAccount _ nodeId _ _ => nodeId

def channels : Patch → Option (List Channel)
  | .byNode _ body _ => body.channels
  | .byAccount _ _ _ body => body.channels

def locTier : Patch → Option LocTier
  | .byNode _ body _ => body.locTier
  | .byAccount _ _ _ body => body.locTier

/-- The handler up to its `update_consent` call: authenticate, read the node, check, resolve. -/
def prepare (rt : Runtime) (s : App) : Patch → Except Failure ConsentArgs
  | .byNode authorization body clientIp =>
    match requireBearer rt authorization with
    | .error e => .error e
    | .ok presented =>
      match authenticateNode s.db presented body.nodeId with
      | .error e => .error e
      | .ok node =>
        consentArgs rt node body.channels body.locTier body.region body.postcode clientIp
  | .byAccount xGwInternal nodeId contributorRef body =>
    match requireInternal s.internalKey xGwInternal with
    | .error e => .error e
    | .ok () =>
      match ownedNode s.db nodeId contributorRef with
      | .error e => .error e
      | .ok node => consentArgs rt node body.channels body.locTier body.region body.postcode none

end Patch

/-- A handler that has read its node and has yet to call `update_consent`. -/
structure Underway where
  patch : Patch
  args : ConsentArgs

/-- The server with the handlers under way, and for each node the location of the last accepted
request that set it. -/
structure Serving where
  app : App
  underway : Table Nat Underway := ∅
  settled : Table String (LocTier × Location) := ∅

namespace Serving

/-- An operation that runs alone, or one half of a `PATCH` handler. -/
inductive Event
  | op (o : Op)
  | read (key : Nat) (p : Patch)
  | update (key : Nat)

def settle (rt : Runtime) (settled : Table String (LocTier × Location)) (r : Request) :
    Table String (LocTier × Location) :=
  match r.location rt with
  | none => settled
  | some (id, tier, loc) => settled.replaceRow id (tier, loc)

def step (rt : Runtime) (s : Serving) : Event → Serving
  | .op (.drain parseFile ticks) => { s with app := s.app.step rt (.drain parseFile ticks) }
  | .op (.request r) =>
    { s with
      app := s.app.handle rt r
      settled := if (s.app.answer rt r).isOk then settle rt s.settled r else s.settled }
  | .read key p =>
    if key ∈ s.underway then s
    else
      match p.prepare rt s.app with
      | .error _ => s
      | .ok args => { s with underway := s.underway.replaceRow key ⟨p, args⟩ }
  | .update key =>
    match s.underway.lookup key with
    | none => s
    | some u =>
      { app := { s.app with db := u.args.call s.app.db }
        underway := s.underway.deleteRow key
        settled := settle rt s.settled u.patch.request }

def start (internalKey : Option String) (rowsPerMin : ℚ) : Serving where
  app := .start internalKey rowsPerMin

def after (rt : Runtime) (s : Serving) (events : List Event) : Serving := events.foldl (step rt) s

end Serving

end GridWitness.Server
