import GridWitness.Portal.Dashboard
import GridWitness.Server.SurveyUpload

namespace GridWitness.Portal

open Server

/-- What the portal leans on in .NET. -/
structure DotNet where
  trim : String → String
  equalsIgnoreCase : String → String → Bool

def DotNet.ascii : DotNet where
  trim := Runtime.stripAscii
  equalsIgnoreCase a b := a.toList.map Char.toLower = b.toList.map Char.toLower

/-- The user who is signed in. -/
structure Account where
  ref : String
  emailConfirmed : Bool

/-- The errors of a form: the field, and the text next to it. -/
abbrev ModelErrors := List (String × String)

section Validation

variable (net : DotNet)

def isNullOrWhiteSpace (s : Option String) : Bool := net.trim (s.getD "") = ""

/-- `[Required]`. -/
def required (field message value : String) : ModelErrors :=
  if isNullOrWhiteSpace net (some value) then [(field, message)] else []

def utf16Length (s : String) : Nat := s.toList.foldl (fun n c => if c.toNat < 0x10000 then n + 1 else n + 2) 0

/-- `[StringLength]`. -/
def stringLength (field display : String) (max : Nat) (value : Option String) : ModelErrors :=
  if max < utf16Length (value.getD "") then
    [(field, "The field " ++ display ++ " must be a string with a maximum length of " ++ toString max ++ ".")]
  else []

/-- The location a tier needs. -/
def locationErrors (locTier : String) (region postcode : Option String) (noRegion noPostcode : String) :
    ModelErrors :=
  (if locTier = "region" && isNullOrWhiteSpace net region then [("Region", noRegion)] else []) ++
  (if locTier = "data_share" && isNullOrWhiteSpace net postcode then [("Postcode", noPostcode)] else [])

end Validation

/-- `Path.GetExtension`. -/
def getExtension (fileName : String) : String :=
  let tail := fileName.toList.reverse.takeWhile fun c => c ≠ '.' && c ≠ '/'
  if tail ≠ [] && (fileName.toList.reverse.drop tail.length).head? = some '.' then
    String.ofList ('.' :: tail.reverse)
  else ""

/-- The portal, as it is deployed: what it is built on, and its credential. -/
structure Deployment where
  rt : Runtime
  net : DotNet
  xGwInternal : Option String
  clientIp : Option String

namespace IngestAdminClient

/-- `DeleteAsync`: false where the node is gone. -/
def delete (s : App) (xGwInternal : Option String) (nodeId ref now : String) : App × Except Failure Bool :=
  match Admin.deleteNode s xGwInternal nodeId ref now with
  | (s, .ok _) => (s, .ok true)
  | (s, .error (.http 404 _)) => (s, .ok false)
  | (s, .error e) => (s, .error e)

end IngestAdminClient

/-- The nodes of an account on a page. -/
structure NodesPage where
  nodes : List AdminNodeView
  emailConfirmed : Bool
  ingestHealthy : Bool
  error : Option String

structure CreateNodeVm where
  deviceType : String
  groups : List String
  locTier : LocTier
  region : Option String := none
  postcode : Option String := none

inductive CreatePage
  | view (errors : ModelErrors)
  | tokenIssued (nodeId token : String) (locRef : Option String) (deviceType : String)

namespace Dashboard

variable (p : Deployment) (s : App) (a : Account)

def index : NodesPage :=
  match Admin.listNodes s p.xGwInternal a.ref with
  | .ok nodes => ⟨nodes, a.emailConfirmed, true, none⟩
  | .error _ =>
    ⟨[], a.emailConfirmed, false,
      some "The ingest service could not be reached. Your keys are safe — please try again shortly."⟩

/-- The channels a form asks for, frequency always among them. -/
def createChannels (vm : CreateNodeVm) : List Channel :=
  channelsForGroups (if "frequency" ∈ vm.groups then vm.groups else vm.groups ++ ["frequency"])

def createErrors (net : DotNet) (vm : CreateNodeVm) : ModelErrors :=
  required net "DeviceType" "The Name / device field is required." vm.deviceType ++
  stringLength "DeviceType" "Name / device" 60 (some vm.deviceType) ++
  (if createChannels vm = [] then [("Groups", "Choose at least one data type to share.")] else []) ++
  locationErrors net vm.locTier.value vm.region vm.postcode "Pick a region, or choose Anonymous."
    "Enter a postcode, or choose a less precise option."

def registerRequest (vm : CreateNodeVm) : RegisterRequest where
  channels := createChannels vm
  locTier := vm.locTier
  region := if vm.locTier = .region then vm.region else none
  postcode := if vm.locTier = .dataShare then vm.postcode else none
  deviceType := p.net.trim vm.deviceType
  producer := some "gridwitness-portal/1.0"
  contributorRef := some a.ref

def create (vm : CreateNodeVm) (draw : Draw) : App × CreatePage :=
  match createErrors p.net vm with
  | [] =>
    match register p.rt s (registerRequest p a vm) p.xGwInternal p.clientIp draw with
    | (s, .ok result) => (s, .tokenIssued result.nodeId result.token result.locRef (p.net.trim vm.deviceType))
    | (s, .error _) =>
      (s, .view [("", "The ingest service could not issue a key right now. Please try again shortly.")])
  | errors => (s, .view errors)

def deleteNode (id now : String) : App × TempData :=
  if !a.emailConfirmed then
    (s, .error "Confirm your email address before deleting data. This proves the account is yours.")
  else
    match IngestAdminClient.delete s p.xGwInternal id a.ref now with
    | (s, .ok true) =>
      (s, .message "Node erased. Its data will be dropped from the lake on the next acquisition cycle.")
    | (s, .ok false) => (s, .message "That node was already gone.")
    | (s, .error _) => (s, .error "The node could not be erased right now. Please try again shortly.")

end Dashboard

structure SurveyUploadVm where
  label : String
  deviceType : Option String := none
  locTier : String := "region"
  region : Option String := none
  postcode : Option String := none
  notes : Option String := none
  consent : Bool

inductive UploadPage
  | view (errors : ModelErrors)
  | received (nodeId : String) (accepted : Nat) (rejected : List RejectedFile)

inductive ExportPage
  | file (bundle : AccountExport)
  | redirect (tempData : TempData)

namespace Upload

variable (p : Deployment) (s : App) (a : Account)

def fileErrors (net : DotNet) (files : List UploadFile) : ModelErrors :=
  (if files = [] then [("", "Add at least one survey file.")] else []) ++
  (if maxFiles < files.length then
    [("", "Up to " ++ toString maxFiles ++ " files at a time — you added " ++ toString files.length ++ ".")]
  else []) ++
  (files.filter fun f => !allowedExtensions.any (net.equalsIgnoreCase (getExtension (f.filename.getD "")))).map
    fun f => ("", "'" ++ f.filename.getD "" ++ "' isn't a supported type (.csv, .txt, .pqd, .pqdif).")

def uploadErrors (net : DotNet) (vm : SurveyUploadVm) (files : List UploadFile) : ModelErrors :=
  required net "Label" "Give this survey a name so you can find it later." vm.label ++
  stringLength "Label" "Survey name" 80 (some vm.label) ++
  stringLength "DeviceType" "Analyser / device" 60 vm.deviceType ++
  stringLength "Notes" "Notes (optional)" 500 vm.notes ++
  fileErrors net files ++
  locationErrors net vm.locTier vm.region vm.postcode "Pick a region." "Enter a postcode, or choose Region." ++
  (if !vm.consent then [("Consent", "Please confirm you're happy to contribute this data.")] else [])

/-- A part of the request that is left out where it is blank. -/
def part (value : Option String) : Option String :=
  if isNullOrWhiteSpace p.net value then none else value

/-- `UploadSurveyAsync`, from the fields of the form. -/
def surveyForm (vm : SurveyUploadVm) (files : List UploadFile) : SurveyForm where
  contributorRef := a.ref
  label := p.net.trim vm.label
  locTier := vm.locTier
  region := part p (if vm.locTier = "region" then vm.region else none)
  postcode := part p (if vm.locTier = "data_share" then vm.postcode else none)
  deviceType := ((part p vm.deviceType).map p.net.trim).getD "unknown"
  notes := part p vm.notes
  files

def index (vm : SurveyUploadVm) (files : List UploadFile) (draw : Draw) (uploadedUtc : String) :
    App × UploadPage :=
  match uploadErrors p.net vm files with
  | [] =>
    match surveyUpload p.rt s p.xGwInternal (surveyForm p a vm files) draw uploadedUtc with
    | (s, .ok result) => (s, .received result.nodeId result.accepted result.rejected)
    | (s, .error _) =>
      (s, .view [("", "The upload could not be received right now. Please try again shortly.")])
  | errors => (s, .view errors)

def surveys : NodesPage :=
  match Admin.listNodes s p.xGwInternal a.ref with
  | .ok nodes => ⟨nodes.filter (·.producer = some surveyProducer), a.emailConfirmed, true, none⟩
  | .error _ =>
    ⟨[], a.emailConfirmed, false,
      some "The ingest service could not be reached. Your data is safe — please try again shortly."⟩

def withdraw (id now : String) : App × TempData :=
  if !a.emailConfirmed then
    (s, .error "Confirm your email address before withdrawing data. This proves the account is yours.")
  else
    match IngestAdminClient.delete s p.xGwInternal id a.ref now with
    | (s, .ok true) =>
      (s, .message ("Survey withdrawn. Your files are removed and the readings drop from the research lake on " ++
        "the next cycle."))
    | (s, .ok false) => (s, .message "That survey was already gone.")
    | (s, .error _) => (s, .error "The survey could not be withdrawn right now. Please try again shortly.")

def exportPage (now : String) : ExportPage :=
  if !a.emailConfirmed then
    .redirect
      (.error "Confirm your email address before exporting data. This proves the account is yours.")
  else
    match accountExport s p.xGwInternal a.ref now with
    | .ok bundle => .file bundle
    | .error _ => .redirect (.error "Your export could not be built right now. Please try again shortly.")

end Upload

/-- What an account posts to the portal. -/
inductive Action
  | create (vm : CreateNodeVm) (draw : Draw)
  | updateNode (id : String) (vm : ManageNodeVm)
  | deleteNode (id now : String)
  | upload (vm : SurveyUploadVm) (files : List UploadFile) (draw : Draw) (uploadedUtc : String)
  | withdraw (id now : String)

namespace Deployment

variable (p : Deployment)

def act (s : App) (a : Account) : Action → App
  | .create vm draw => (Dashboard.create p s a vm draw).1
  | .updateNode id vm => (Dashboard.updateNode p.rt s p.xGwInternal a.ref a.emailConfirmed id vm).1
  | .deleteNode id now => (Dashboard.deleteNode p s a id now).1
  | .upload vm files draw uploadedUtc => (Upload.index p s a vm files draw uploadedUtc).1
  | .withdraw id now => (Upload.withdraw p s a id now).1

/-- The actions of some accounts, one after the other. -/
def acts (s : App) (actions : List (Account × Action)) : App :=
  actions.foldl (fun s (a, action) => p.act s a action) s

end Deployment

/-- What an account is shown: the list of its nodes, the page of each, its surveys, and its export. -/
structure Pages where
  index : NodesPage
  node : String → NodePage
  surveys : NodesPage
  exportPage : String → ExportPage

def Deployment.pages (p : Deployment) (s : App) (a : Account) : Pages where
  index := Dashboard.index p s a
  node := Dashboard.node s p.xGwInternal a.ref a.emailConfirmed
  surveys := Upload.surveys p s a
  exportPage := Upload.exportPage p s a

end GridWitness.Portal
