import GridWitness.Server.Routes

namespace GridWitness.Server

open Library

def allowedExtensions : List String := [".csv", ".txt", ".tsv", ".pqd", ".pqdif"]

def maxFiles : Nat := 100

/-- The last component of a POSIX path. -/
def pathName (raw : String) : String :=
  let parts := (raw.toList.splitOn '/').filter fun part => part ≠ [] && part ≠ ['.']
  String.ofList (parts.getLast?.getD [])

/-- The suffix of a name, dot included; a leading or a trailing dot starts none. -/
def pathSuffix (name : String) : String :=
  let tail := name.toList.reverse.takeWhile (· ≠ '.')
  if tail = [] || name.toList.length ≤ tail.length + 1 then ""
  else String.ofList ('.' :: tail.reverse)

structure UploadFile where
  filename : Option String
  content : Bytes

structure SurveyForm where
  contributorRef : String
  label : String
  locTier : String := "region"
  region : Option String := none
  postcode : Option String := none
  deviceType : String := "unknown"
  notes : Option String := none
  files : List UploadFile

structure RejectedFile where
  filename : Option String
  reason : String

structure SurveyUploadResponse where
  surveyId : String
  nodeId : String
  locRef : Option String
  accepted : Nat
  rejected : List RejectedFile

/-- The two location tiers a survey may carry. -/
def surveyTier (locTier : String) : Option LocTier :=
  if locTier = LocTier.region.value then some .region
  else if locTier = LocTier.dataShare.value then some .dataShare
  else none

section Upload

variable (rt : Runtime)

def fileExtension (f : UploadFile) : String :=
  rt.lower (pathSuffix (pathName (f.filename.getD "")))

def orUnknown (deviceType : String) : String :=
  rt.strip (if deviceType = "" then "unknown" else deviceType)

def safeName (raw : Option String) (index : Nat) : String :=
  let name := rt.strip (pathName (raw.getD ""))
  zeroPad 3 index ++ "_" ++ (if name = "" then "file" ++ toString index else name)

/-- The loop that stores the accepted files. -/
def stash : Nat → List UploadFile → Folder → Folder × List StoredFile
  | _, [], folder => (folder, [])
  | i, f :: files, folder =>
    let name := safeName rt f.filename i
    let (folder, stored) := stash (i + 1) files (folder.replaceRow name (.raw f.content))
    (folder, ⟨name, f.filename, f.content.length⟩ :: stored)

def surveyManifest (form : SurveyForm) (tier : LocTier) (locRef : Option String)
    (nodeId uploadedUtc : String) (stored : List StoredFile) : Manifest where
  description := some
    { nodeId
      contributorRef := form.contributorRef
      label := rt.strip form.label
      deviceType := orUnknown rt form.deviceType
      notes :=
        let notes := rt.strip (form.notes.getD "")
        if notes = "" then none else some notes
      locTier := tier
      region := form.region
      locRef
      uploadedUtc }
  status := some "queued"
  files := some (.stored stored)

def surveyNode (form : SurveyForm) (tier : LocTier) (loc : Location) (draw : Draw) : NewNode where
  nodeId := draw.nodeId
  tokenSha256 := rt.sha256 draw.token
  deviceType := orUnknown rt form.deviceType
  firmware := none
  cadenceMs := none
  locTier := tier
  locRef := loc.locRef
  cellId := loc.cellId
  channels := surveyChannels
  postcode := loc.storedPostcode
  rawRegion := loc.rawRegion
  producer := some surveyProducer
  contributorRef := some form.contributorRef

def surveyUpload (s : App) (xGwInternal : Option String) (form : SurveyForm) (draw : Draw)
    (uploadedUtc : String) : App × Except Failure SurveyUploadResponse :=
  match requireInternal s.internalKey xGwInternal with
  | .error e => (s, .error e)
  | .ok () =>
    if form.files = [] then (s, .error (.http 400 "no files uploaded"))
    else if maxFiles < form.files.length then
      (s, .error (.http 400
        ("too many files: " ++ toString form.files.length ++ " (max " ++ toString maxFiles ++ ")")))
    else
      match surveyTier form.locTier with
      | none => (s, .error (.http 400 "surveys require loc_tier 'region' or 'data_share'"))
      | some tier =>
        match checkLocation tier form.region form.postcode with
        | .error e => (s, .error e)
        | .ok () =>
          let supported := fun f => fileExtension rt f ∈ allowedExtensions
          let acceptedFiles := form.files.filter supported
          let rejected := (form.files.filter fun f => !supported f).map fun f =>
            ⟨f.filename, "unsupported extension '" ++ fileExtension rt f ++ "'"⟩
          if acceptedFiles = [] then
            (s, .error (.http 400 "no files with a supported extension (.csv/.txt/.pqd/.pqdif)"))
          else
            let loc := resolveLocation rt tier form.postcode form.region none none
            let (db, created) := s.db.createNode draw.now (surveyNode rt form tier loc draw)
            if !created then ({ s with db }, .error .exception)
            else
              let inbox := (s.surveys.inbox.lookup draw.nodeId).getD ∅
              let (inbox, stored) := stash rt 0 acceptedFiles inbox
              let manifest := surveyManifest rt form tier loc.locRef draw.nodeId uploadedUtc stored
              let inbox := inbox.replaceRow "manifest.json" (.manifest manifest)
              ({ s with
                  db
                  surveys :=
                    { s.surveys with inbox := s.surveys.inbox.replaceRow draw.nodeId inbox } },
                .ok ⟨draw.nodeId, draw.nodeId, loc.locRef, stored.length, rejected⟩)

end Upload

end GridWitness.Server
