import GridWitness.Server.Site

namespace GridWitness.Server

open Library

/-- How a request ends without its normal answer: an `HTTPException`, or any other one. -/
inductive Failure
  | http (status : Nat) (detail : String)
  | exception
  deriving DecidableEq

section Auth

variable (rt : Runtime)

/-- The hash of the bearer token of a request. -/
def requireBearer (authorization : Option String) : Except Failure String :=
  match authorization with
  | none => .error (.http 401 "missing bearer token")
  | some header =>
    if (header.toList.take 7).map Char.toLower = "bearer ".toList then
      .ok (rt.sha256 (rt.strip (String.ofList ((header.toList.dropWhile (· ≠ ' ')).drop 1))))
    else .error (.http 401 "missing bearer token")

def authenticateNode (db : Database) (presented : String) (nodeId : String) :
    Except Failure Node :=
  match db.getNode nodeId with
  | none => .error (.http 404 "unknown node")
  | some node =>
    if db.getTokenHash nodeId = some presented then .ok node
    else .error (.http 401 "invalid token for node")

def isAscii (s : String) : Bool := s.toList.all fun c => c.val < 128

/-- The internal credential; `compare_digest` raises on text outside ASCII. -/
def requireInternal (configured presented : Option String) : Except Failure Unit :=
  if !truthy configured then .error (.http 404 "not found")
  else if !truthy presented then .error (.http 401 "invalid internal credential")
  else if !(isAscii (presented.getD "") && isAscii (configured.getD "")) then .error .exception
  else if presented = configured then .ok ()
  else .error (.http 401 "invalid internal credential")

def ownedNode (db : Database) (nodeId contributorRef : String) : Except Failure Node :=
  match db.getNode nodeId with
  | none => .error (.http 404 "unknown node")
  | some node =>
    if db.getContributorRef nodeId = some contributorRef then .ok node
    else .error (.http 404 "unknown node")

end Auth

/-- The checks every route makes on a location before it resolves it. -/
def checkLocation (locTier : LocTier) (region postcode : Option String) : Except Failure Unit :=
  if locTier = .region && !truthy region then
    .error (.http 400 "region required for loc_tier=region")
  else if locTier = .dataShare && !truthy postcode then
    .error (.http 400 "postcode required for loc_tier=data_share")
  else .ok ()

/-- What a request draws from the outside: a node id, a token and a clock reading. -/
structure Draw where
  nodeId : String
  token : String
  now : String

def register (rt : Runtime) (s : App) (body : RegisterRequest)
    (xGwInternal clientIp : Option String) (draw : Draw) :
    App × Except Failure RegisterResponse :=
  match checkLocation body.locTier body.region body.postcode with
  | .error e => (s, .error e)
  | .ok () =>
    match if body.contributorRef.isSome then requireInternal s.internalKey xGwInternal
      else .ok () with
    | .error e => (s, .error e)
    | .ok () =>
      let loc := resolveLocation rt body.locTier body.postcode body.region clientIp none
      let (db, created) := s.db.createNode draw.now
        { nodeId := draw.nodeId
          tokenSha256 := rt.sha256 draw.token
          deviceType := body.deviceType
          firmware := body.firmware
          cadenceMs := body.cadenceMs
          locTier := body.locTier
          locRef := loc.locRef
          cellId := loc.cellId
          channels := body.channels
          postcode := loc.storedPostcode
          rawRegion := loc.rawRegion
          producer := body.producer
          contributorRef := body.contributorRef }
      ({ s with db }, if created then .ok ⟨draw.nodeId, draw.token, loc.locRef, loc.cellId⟩
        else .error .exception)

/-- The loop of `post_samples` over one kind of rows: reject what carries a channel outside
the consent, project the rest. -/
def siftRows {ρ : Type} (kind : Kind) (present : ρ → List Channel) (project : ρ → Row)
    (consented : List Channel) : Nat → List ρ → List RejectedRow × List Row
  | _, [] => ([], [])
  | i, row :: rows =>
    let unconsented := (present row).filter (· ∉ consented)
    let (rejected, ok) := siftRows kind present project consented (i + 1) rows
    if unconsented = [] then (rejected, project row :: ok)
    else
      (⟨i, kind, "channel(s) not consented: " ++ listRepr (sorted unconsented)⟩ :: rejected, ok)

structure SamplesCall where
  authorization : Option String
  body : SamplesRequest
  monotonic : ℚ
  electricalFault : Option AppendFault := none
  weatherFault : Option AppendFault := none

def postSamples (rt : Runtime) (s : App) (c : SamplesCall) :
    App × Except Failure SamplesResponse :=
  match requireBearer rt c.authorization with
  | .error e => (s, .error e)
  | .ok presented =>
    match authenticateNode s.db presented c.body.nodeId with
    | .error e => (s, .error e)
    | .ok node =>
      let total := c.body.electrical.length + c.body.weather.length
      let (limiter, allowed) := s.limiter.allow c.monotonic c.body.nodeId (max total 1)
      if !allowed then ({ s with limiter }, .error (.http 429 "rate limit exceeded"))
      else
        let (rejectedE, elecOk) := siftRows .electrical ElectricalRow.presentChannels
          (projectElectrical · node) node.channels 0 c.body.electrical
        let (rejectedW, weatherOk) := siftRows .weather WeatherRow.presentChannels
          (projectWeather · node) node.channels 0 c.body.weather
        match StagingWriter.writeElectrical rt c.electricalFault ⟨s.tree, s.dedupe⟩ elecOk with
        | (w, none) => ({ s with limiter, tree := w.tree, dedupe := w.dedupe }, .error .exception)
        | (w, some (eAcc, eDup)) =>
          match StagingWriter.writeWeather rt c.weatherFault w weatherOk with
          | (w, none) =>
            ({ s with limiter, tree := w.tree, dedupe := w.dedupe }, .error .exception)
          | (w, some (wAcc, wDup)) =>
            ({ s with limiter, tree := w.tree, dedupe := w.dedupe },
              .ok ⟨eAcc + wAcc, eDup + wDup, rejectedE ++ rejectedW⟩)

/-- The body the two consent routes share: check, resolve, and one `update_consent` call. -/
def changeConsent (rt : Runtime) (s : App) (node : Node) (channels : Option (List Channel))
    (locTier : Option LocTier) (region postcode clientIp : Option String) :
    App × Except Failure (Option String) :=
  match locTier with
  | none =>
    ({ s with db := s.db.updateConsent node.nodeId channels none }, .ok node.locRef)
  | some tier =>
    match checkLocation tier region postcode with
    | .error e => (s, .error e)
    | .ok () =>
      let loc := resolveLocation rt tier postcode region clientIp none
      ({ s with
          db := s.db.updateConsent node.nodeId channels
            (some ⟨tier, loc.locRef, loc.cellId, loc.storedPostcode⟩) },
        .ok loc.locRef)

def updateNode (rt : Runtime) (s : App) (authorization : Option String) (body : ConsentUpdate)
    (clientIp : Option String) : App × Except Failure (Option String) :=
  match requireBearer rt authorization with
  | .error e => (s, .error e)
  | .ok presented =>
    match authenticateNode s.db presented body.nodeId with
    | .error e => (s, .error e)
    | .ok node =>
      changeConsent rt s node body.channels body.locTier body.region body.postcode clientIp

def deleteNode (rt : Runtime) (s : App) (authorization : Option String) (nodeId now : String) :
    App × Except Failure Bool :=
  match requireBearer rt authorization with
  | .error e => (s, .error e)
  | .ok presented =>
    match authenticateNode s.db presented nodeId with
    | .error e => (s, .error e)
    | .ok _ =>
      let (db, deleted) := s.db.deleteNode now nodeId
      ({ s with db }, .ok deleted)

namespace Admin

def updateNode (rt : Runtime) (s : App) (xGwInternal : Option String)
    (nodeId contributorRef : String) (body : AdminConsentUpdate) :
    App × Except Failure (Option String) :=
  match requireInternal s.internalKey xGwInternal with
  | .error e => (s, .error e)
  | .ok () =>
    match ownedNode s.db nodeId contributorRef with
    | .error e => (s, .error e)
    | .ok node => changeConsent rt s node body.channels body.locTier body.region body.postcode none

def deleteNode (s : App) (xGwInternal : Option String) (nodeId contributorRef now : String) :
    App × Except Failure Bool :=
  match requireInternal s.internalKey xGwInternal with
  | .error e => (s, .error e)
  | .ok () =>
    match ownedNode s.db nodeId contributorRef with
    | .error e => (s, .error e)
    | .ok _ =>
      let (db, deleted) := s.db.deleteNode now nodeId
      if deleted then
        ({ s with
            db
            surveys :=
              { inbox := s.surveys.inbox.deleteRow nodeId
                archive := s.surveys.archive.deleteRow nodeId } },
          .ok true)
      else ({ s with db }, .ok false)

end Admin

end GridWitness.Server
