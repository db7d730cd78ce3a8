import GridWitness.Server.SurveyUpload
import GridWitness.Survey.Worker

namespace GridWitness.Server

open Library Survey

/-- A request to the ingest server, with what it draws from the outside. -/
inductive Request
  | register (body : RegisterRequest) (xGwInternal clientIp : Option String) (draw : Draw)
  | samples (c : SamplesCall)
  | updateNode (authorization : Option String) (body : ConsentUpdate) (clientIp : Option String)
  | deleteNode (authorization : Option String) (nodeId now : String)
  | adminUpdateNode (xGwInternal : Option String) (nodeId contributorRef : String)
      (body : AdminConsentUpdate)
  | adminDeleteNode (xGwInternal : Option String) (nodeId contributorRef now : String)
  | surveyUpload (xGwInternal : Option String) (form : SurveyForm) (draw : Draw)
      (uploadedUtc : String)

def App.handle (rt : Runtime) (s : App) : Request → App
  | .register body xGwInternal clientIp draw => (register rt s body xGwInternal clientIp draw).1
  | .samples c => (postSamples rt s c).1
  | .updateNode authorization body clientIp => (updateNode rt s authorization body clientIp).1
  | .deleteNode authorization nodeId now => (deleteNode rt s authorization nodeId now).1
  | .adminUpdateNode xGwInternal nodeId contributorRef body =>
    (Admin.updateNode rt s xGwInternal nodeId contributorRef body).1
  | .adminDeleteNode xGwInternal nodeId contributorRef now =>
    (Admin.deleteNode s xGwInternal nodeId contributorRef now).1
  | .surveyUpload xGwInternal form draw uploadedUtc =>
    (surveyUpload rt s xGwInternal form draw uploadedUtc).1

/-- An operation on the data volume: a request, or one run of the survey worker. -/
inductive Op
  | request (r : Request)
  | drain (parseFile : Parser) (ticks : String → Nat → Tick)

def App.step (rt : Runtime) (s : App) : Op → App
  | .request r => s.handle rt r
  | .drain parseFile ticks => { s with toSite := Survey.drain rt parseFile ticks s.toSite }

/-- A server on an empty data volume. -/
def App.start (internalKey : Option String) (rowsPerMin : ℚ) : App where
  internalKey
  limiter := .new rowsPerMin

def App.after (rt : Runtime) (s : App) (ops : List Op) : App := ops.foldl (App.step rt) s

/-- A new process on the same data volume: it has seen no row yet, and no call. -/
def App.restart (s : App) : App :=
  { s with dedupe := StagingWriter.freshDeduper, limiter := .new s.limiter.capacity }

/-- An operation, or the end of the server process and the start of the next one. -/
inductive ServerStep
  | op (o : Op)
  | restart

def App.serve (rt : Runtime) (s : App) : ServerStep → App
  | .op o => s.step rt o
  | .restart => s.restart

end GridWitness.Server
