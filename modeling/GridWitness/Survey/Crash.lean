import GridWitness.Survey.Intake

namespace GridWitness.Survey

open Library Server

/-- Where the worker stands: not running, between two surveys of a drain, or in a survey; of those it
has listed some remain. -/
inductive DrainStage
  | idle
  | draining (remaining : List String)
  | survey (id : String) (remaining : List String) (stage : Stage)

/-- The volume and the drains that run over it, one process after the other. `archivedBy` says with
which parser a file of a survey was processed in the drain that moved it. -/
structure Drains where
  drain : Drain
  parseFile : Parser
  stage : DrainStage
  archivedBy : List (String × String × Parser)

/-- A drain starts with the parser its host can offer, takes its next effect, or is stopped. -/
inductive DrainEvent
  | start (parseFile : Parser)
  | effect (tick : Tick)
  | stop

/-- The file a step of a survey has moved. -/
def movedFile (before after : Stage) : Option String :=
  match before, after with
  | .moving _ _ _ _ (name :: _), .moving _ _ _ _ _ => some name
  | _, _ => none

namespace Drains

def start (site : Site) (parseFile : Parser) : Drains := ⟨{ site }, parseFile, .idle, []⟩

/-- The next effect of the drain that runs. -/
def effect (rt : Runtime) (x : Drains) (tick : Tick) : Drains :=
  match x.stage with
  | .idle => x
  | .draining [] => { x with stage := .idle }
  | .draining (id :: remaining) => { x with stage := .survey id remaining .start }
  | .survey _ remaining (.finished _) => { x with stage := .draining remaining }
  | .survey id remaining stage =>
    let (drain, stage') := step rt x.parseFile id tick x.drain stage
    { x with
      drain
      stage := .survey id remaining stage'
      archivedBy := ((movedFile stage stage').map (id, ·, x.parseFile)).toList ++ x.archivedBy }

/-- One event; the lock of the worker keeps a second drain from starting beside the first. -/
def step (rt : Runtime) (x : Drains) : DrainEvent → Drains
  | .start parseFile =>
    match x.stage with
    | .idle =>
      { x with
        drain := { x.drain with dedupe := StagingWriter.freshDeduper }
        parseFile
        stage := .draining (x.drain.site.surveys.inbox.keys.insertionSort (· ≤ ·)) }
    | _ => x
  | .effect tick => x.effect rt tick
  | .stop => { x with stage := .idle }

end Drains

end GridWitness.Survey
