import GridWitness.Acquirer.RunLaws
import GridWitness.Library.Trace

namespace GridWitness.Acquirer

open Library Server

/-- Where the acquirer stands between two accesses to the volume, with its cursor in memory. -/
inductive Phase
  | idle
  | covering (state : State) (todo : List Kind)
  | holding (state : State) (kind : Kind) (rows : List Row) (todo : List Kind)
  | landed (state : State) (kind : Kind) (todo : List Kind)

/-- The acquirer next to the writers of staging. `started` is the tree its last run set out on. -/
structure Process where
  tree : StagingTree
  lake : Lake
  saved : State
  phase : Phase
  started : StagingTree

inductive Event
  | append (kind : Kind) (rows : List Row)
  | acquire

namespace Process

/-- The next access of a run: read, land and move the cursor for each kind, then save. -/
def acquire (host : Host) (x : Process) : Process :=
  match x.phase with
  | .idle => { x with phase := .covering x.saved [.electrical, .weather], started := x.tree }
  | .covering state (kind :: todo) =>
    { x with phase := .holding state kind (readStaging host x.tree kind (state kind)) todo }
  | .holding state kind rows todo =>
    { x with
      lake := (writeDataset host kind (fun _ => true) x.lake
        (clampHorizon none (frame host kind rows))).1
      phase := .landed state kind todo }
  | .landed state kind todo =>
    { x with phase := .covering (state.set kind (latestHour x.tree kind)) todo }
  | .covering state [] => { x with saved := state, phase := .idle }

def step (rt : Runtime) (host : Host) (x : Process) : Event → Process
  | .append kind rows =>
    { x with tree := (StagingWriter.append rt kind kind.columns kind.tsField none x.tree rows).1 }
  | .acquire => x.acquire host

def start (lake : Lake) : Process := ⟨∅, lake, fun _ => none, .idle, ∅⟩

/-- The accesses of an undisturbed run amount to the run. -/
theorem acquire_run (host : Host) (x : Process) (h : x.phase = .idle) :
    let y := (acquire host)^[8] x
    let a := (run host (fun _ => true) none x.tree ⟨x.lake, x.saved⟩).1
    y.lake = a.lake ∧ y.saved = a.state ∧ y.tree = x.tree ∧ y.phase = .idle := by
  obtain ⟨tree, lake, saved, phase, started⟩ := x
  cases h
  exact ⟨rfl, rfl, rfl, rfl⟩

end Process

end GridWitness.Acquirer
