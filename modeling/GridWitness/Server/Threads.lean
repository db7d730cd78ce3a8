import GridWitness.Library.Threads
import GridWitness.Server.DatabaseLaws
import GridWitness.Server.Handlers

namespace GridWitness.Server

open Library

/-- What a handler has access to at one time: the node store, through one call of its methods, the staging
files, and the rest, which is the limiter, the window of recent keys and the survey folders. -/
inductive Access
  | db (c : Database.Call)
  | stage (kind : Kind) (rows : List Row)
  | other

/-- The call changes the node store. -/
def Database.Call.writes : Database.Call → Bool
  | .createNode _ _ => true
  | .updateConsent _ _ _ => true
  | .deleteNode _ _ => true
  | _ => false

def Access.writes : Access → Bool
  | .db c => c.writes
  | _ => false

/-- A handler, access by access. -/
abbrev Route := Prog App Access Failure

namespace Route

section Database

def createNode (now : String) (n : NewNode) : Route Bool :=
  .call (.db (.createNode now n)) fun s => ({ s with db := (s.db.createNode now n).1 }, (s.db.createNode now n).2)

def updateConsent (args : ConsentArgs) : Route Unit :=
  .call (.db (.updateConsent args.nodeId args.channels args.location)) fun s =>
    ({ s with db := args.call s.db }, ())

def deleteNode (now nodeId : String) : Route Bool :=
  .call (.db (.deleteNode now nodeId)) fun s =>
    ({ s with db := (s.db.deleteNode now nodeId).1 }, (s.db.deleteNode now nodeId).2)

def getNode (nodeId : String) : Route (Option Node) := .ask (.db (.getNode nodeId)) (·.db.getNode nodeId)

def getTokenHash (nodeId : String) : Route (Option String) :=
  .ask (.db (.getTokenHash nodeId)) (·.db.getTokenHash nodeId)

def getContributorRef (nodeId : String) : Route (Option String) :=
  .ask (.db (.getContributorRef nodeId)) (·.db.getContributorRef nodeId)

end Database

section Auth

def authenticateNode (presented nodeId : String) : Route Node := do
  match ← getNode nodeId with
  | none => .raise (.http 404 "unknown node")
  | some node =>
    let stored ← getTokenHash nodeId
    if stored = some presented then pure node else .raise (.http 401 "invalid token for node")

def requireInternal (xGwInternal : Option String) : Route Unit := do
  let checked ← Prog.ask .other fun s => Server.requireInternal s.internalKey xGwInternal
  .ofExcept checked

def ownedNode (nodeId contributorRef : String) : Route Node := do
  match ← getNode nodeId with
  | none => .raise (.http 404 "unknown node")
  | some node =>
    let owner ← getContributorRef nodeId
    if owner = some contributorRef then pure node else .raise (.http 404 "unknown node")

end Auth

variable (rt : Runtime)

def register (body : RegisterRequest) (xGwInternal clientIp : Option String) (draw : Draw) :
    Route Response := do
  .ofExcept (checkLocation body.locTier body.region body.postcode)
  if body.contributorRef.isSome then requireInternal xGwInternal
  let loc := resolveLocation rt body.locTier body.postcode body.region clientIp none
  let created ← createNode draw.now
    { nodeId := draw.nodeId
      tokenSha256 := rt.sha256 draw.token
      deviceType := body.deviceType
      firmware := body.firmware
      cadenceMs := body.cadenceMs
      locTier := body.locTier
      locRef := loc.locRef
      cellId := loc.cellId
      channels := body.channels
      postcode := loc.storedPostcode
      rawRegion := loc.rawRegion
      producer := body.producer
      contributorRef := body.contributorRef }
  if created then pure (.registered ⟨draw.nodeId, draw.token, loc.locRef, loc.cellId⟩)
  else .raise .exception

/-- The two writers: the window under its lock, then the files under theirs. -/
def write (kind : Kind) (columns keyFields : List String) (tsField : String) (fault : Option AppendFault)
    (rows : List Row) : Route (Nat × Nat) := do
  let (unique, dups) ← Prog.call .other fun s =>
    ({ s with dedupe := (s.dedupe.filterNew keyFields rows).1 }, (s.dedupe.filterNew keyFields rows).2)
  let completed ← Prog.call (.stage kind unique) fun s =>
    let appended := StagingWriter.append rt kind columns tsField fault s.tree unique
    ({ s with tree := appended.1 }, appended.2)
  if completed then pure (unique.length, dups) else .raise .exception

def postSamples (c : SamplesCall) : Route Response := do
  let presented ← .ofExcept (requireBearer rt c.authorization)
  let node ← authenticateNode presented c.body.nodeId
  let total := c.body.electrical.length + c.body.weather.length
  let allowed ← Prog.call .other fun s =>
    let answered := s.limiter.allow c.monotonic c.body.nodeId (max total 1)
    ({ s with limiter := answered.1 }, answered.2)
  if allowed then do
    let electrical := siftRows .electrical ElectricalRow.presentChannels (projectElectrical · node) node.channels
      0 c.body.electrical
    let weather := siftRows .weather WeatherRow.presentChannels (projectWeather · node) node.channels 0
      c.body.weather
    let (eAcc, eDup) ←
      write rt .electrical electricalCsvColumns StagingWriter.electricalKey "ts_utc" c.electricalFault electrical.2
    let (wAcc, wDup) ←
      write rt .weather weatherCsvColumns StagingWriter.weatherKey "time" c.weatherFault weather.2
    pure (.samples ⟨eAcc + wAcc, eDup + wDup, electrical.1 ++ weather.1⟩)
  else .raise (.http 429 "rate limit exceeded")

def patch : Patch → Route Response
  | .byNode authorization body clientIp => do
    let presented ← .ofExcept (requireBearer rt authorization)
    let node ← authenticateNode presented body.nodeId
    let args ← .ofExcept
      (consentArgs rt node body.channels body.locTier body.region body.postcode clientIp)
    updateConsent args
    pure (.located args.locRef)
  | .byAccount xGwInternal nodeId contributorRef body => do
    requireInternal xGwInternal
    let node ← ownedNode nodeId contributorRef
    let args ← .ofExcept
      (consentArgs rt node body.channels body.locTier body.region body.postcode none)
    updateConsent args
    pure (.located args.locRef)

def deleteByNode (authorization : Option String) (nodeId now : String) : Route Response := do
  let presented ← .ofExcept (requireBearer rt authorization)
  let _ ← authenticateNode presented nodeId
  let deleted ← deleteNode now nodeId
  pure (.deleted deleted)

def deleteByAccount (xGwInternal : Option String) (nodeId contributorRef now : String) : Route Response := do
  requireInternal xGwInternal
  let _ ← ownedNode nodeId contributorRef
  let deleted ← deleteNode now nodeId
  if deleted then do
    Prog.call .other fun s =>
      ({ s with surveys := { s.surveys with inbox := s.surveys.inbox.deleteRow nodeId } }, ())
    Prog.call .other fun s =>
      ({ s with surveys := { s.surveys with archive := s.surveys.archive.deleteRow nodeId } }, ())
    pure (.deleted deleted)
  else pure (.deleted deleted)

section Upload

/-- `mkdir` of the folder of a survey in the inbox, which may be there. -/
def makeInbox (nodeId : String) : Route Unit :=
  .call .other fun s =>
    let folder := (s.surveys.inbox.lookup nodeId).getD ∅
    ({ s with surveys := { s.surveys with inbox := s.surveys.inbox.replaceRow nodeId folder } }, ())

/-- Write one file into the folder of a survey, which may be gone by now. -/
def put (nodeId name : String) (content : Content) : Route Unit := do
  let found ← Prog.call .other fun s =>
    match s.surveys.inbox.lookup nodeId with
    | none => (s, false)
    | some folder =>
      let inbox := s.surveys.inbox.replaceRow nodeId (folder.replaceRow name content)
      ({ s with surveys := { s.surveys with inbox } }, true)
  if found then pure () else .raise .exception

def stash (nodeId : String) : Nat → List UploadFile → Route (List StoredFile)
  | _, [] => pure []
  | i, f :: files => do
    put nodeId (safeName rt f.filename i) (.raw f.content)
    let stored ← stash nodeId (i + 1) files
    pure (⟨safeName rt f.filename i, f.filename, f.content.length⟩ :: stored)

def surveyUpload (xGwInternal : Option String) (form : SurveyForm) (draw : Draw) (uploadedUtc : String) :
    Route Response := do
  requireInternal xGwInternal
  if form.files = [] then .raise (.http 400 "no files uploaded")
  else if maxFiles < form.files.length then
    .raise (.http 400
      ("too many files: " ++ toString form.files.length ++ " (max " ++ toString maxFiles ++ ")"))
  else
    match surveyTier form.locTier with
    | none => .raise (.http 400 "surveys require loc_tier 'region' or 'data_share'")
    | some tier => do
      .ofExcept (checkLocation tier form.region form.postcode)
      let supported := fun f => fileExtension rt f ∈ allowedExtensions
      let acceptedFiles := form.files.filter supported
      let rejected := (form.files.filter fun f => !supported f).map fun f =>
        ⟨f.filename, "unsupported extension '" ++ fileExtension rt f ++ "'"⟩
      if acceptedFiles = [] then
        .raise (.http 400 "no files with a supported extension (.csv/.txt/.pqd/.pqdif)")
      else do
        let loc := resolveLocation rt tier form.postcode form.region none none
        let created ← createNode draw.now (surveyNode rt form tier loc draw)
        if created then do
          makeInbox draw.nodeId
          let stored ← stash rt draw.nodeId 0 acceptedFiles
          put draw.nodeId "manifest.json"
            (.manifest (surveyManifest rt form tier loc.locRef draw.nodeId uploadedUtc stored))
          pure (.uploaded ⟨draw.nodeId, draw.nodeId, loc.locRef, stored.length, rejected⟩)
        else .raise .exception

end Upload

end Route

/-- The handler of a request. -/
def Request.route (rt : Runtime) : Request → Route Response
  | .register body xGwInternal clientIp draw => .register rt body xGwInternal clientIp draw
  | .samples c => .postSamples rt c
  | .updateNode authorization body clientIp => .patch rt (.byNode authorization body clientIp)
  | .deleteNode authorization nodeId now => .deleteByNode rt authorization nodeId now
  | .adminUpdateNode xGwInternal nodeId contributorRef body =>
    .patch rt (.byAccount xGwInternal nodeId contributorRef body)
  | .adminDeleteNode xGwInternal nodeId contributorRef now =>
    .deleteByAccount xGwInternal nodeId contributorRef now
  | .surveyUpload xGwInternal form draw uploadedUtc => .surveyUpload rt xGwInternal form draw uploadedUtc

/-- The server with its handlers in threads of their own. -/
abbrev Threads := Pool Request App Access Failure Response

def Threads.start (internalKey : Option String) (rowsPerMin : ℚ) : Threads where
  shared := .start internalKey rowsPerMin

/-- The requests that changed the node store, in the order in which they did. -/
def Threads.served (rt : Runtime) (s : Threads) (turns : List (Turn Request)) : List Request :=
  ((s.log (Request.route rt) turns).filter (·.label.writes)).map (·.origin)

end GridWitness.Server
