import GridWitness.Library.Trace
import GridWitness.Server.Routes
import GridWitness.Survey.Worker

namespace GridWitness.Survey

open Library Server

/-- Where an authorised `DELETE` of a survey node stands between two of its effects. -/
inductive Phase
  | pending | erased | inboxRemoved | finished
  deriving DecidableEq

/-- The route that withdraws a survey next to the worker that processes it. -/
structure Withdrawal where
  drain : Drain
  stage : Stage
  phase : Phase

inductive Move
  | worker (tick : Tick)
  | route (now : String)
  | drain (parseFile : Parser) (ticks : String → Nat → Tick)

namespace Withdrawal

def withSite (x : Withdrawal) (site : Site) (phase : Phase) : Withdrawal :=
  { x with drain := { x.drain with site }, phase }

def withSurveys (site : Site) (inbox archive : Table String Folder) : Site :=
  { site with surveys := { inbox, archive } }

/-- One effect of the route: the erasure, then the removal of either folder. -/
def route (id now : String) (x : Withdrawal) : Withdrawal :=
  let site := x.drain.site
  match x.phase with
  | .pending =>
    let (db, deleted) := site.db.deleteNode now id
    x.withSite { site with db } (if deleted then .erased else .finished)
  | .erased =>
    x.withSite (withSurveys site (site.surveys.inbox.deleteRow id) site.surveys.archive)
      .inboxRemoved
  | .inboxRemoved =>
    x.withSite (withSurveys site site.surveys.inbox (site.surveys.archive.deleteRow id)) .finished
  | .finished => x

def settled (x : Withdrawal) : Bool :=
  match x.stage, x.phase with
  | .finished _, .finished => true
  | _, _ => false

/-- One move; a further drain starts only when both parties are done. -/
def step (rt : Runtime) (parseFile : Parser) (id : String) (x : Withdrawal) : Move → Withdrawal
  | .worker tick =>
    let (drain, stage) := Survey.step rt parseFile id tick x.drain x.stage
    { x with drain, stage }
  | .route now => x.route id now
  | .drain parseFile ticks =>
    if x.settled then x.withSite (Survey.drain rt parseFile ticks x.drain.site) x.phase else x

def start (site : Site) (dedupe : Deduper) : Withdrawal := ⟨⟨site, dedupe⟩, .start, .pending⟩

/-- The three effects in a row are the effect of the route. -/
theorem route_route_route {s : App} {xGwInternal : Option String} {id ref now : String}
    (hauth : requireInternal s.internalKey xGwInternal = .ok ())
    (howned : ownedNode s.db id ref = .ok node) (x : Withdrawal) (hx : x.phase = .pending)
    (hsite : x.drain.site = s.toSite) :
    (((x.route id now).route id now).route id now).drain.site =
      (Admin.deleteNode s xGwInternal id ref now).1.toSite := by
  simp only [Admin.deleteNode, hauth, howned, route, hx, hsite]
  cases hdel : (s.db.deleteNode now id).2 with
  | true => simp [withSite, withSurveys]
  | false => simp [withSite]

end Withdrawal

end GridWitness.Survey
