import GridWitness.Acquirer.Lake

namespace GridWitness.Acquirer

open Library Server

/-- The saved cursor: for each kind the newest hour covered so far. -/
abbrev State := Kind → Option String

def State.set (state : State) (kind : Kind) (newest : Option String) : State := fun k =>
  if k = kind then newest.or (state k) else state k

/-- Rows newer than the cutoff stay out of the lake. -/
def clampHorizon (cutoff : Option Instant) (df : List FrameRow) : List FrameRow :=
  match cutoff with
  | none => df
  | some cutoff => df.filter (·.ts ≤ cutoff)

/-- What the acquirer keeps between runs. -/
structure Landing where
  lake : Lake := ∅
  state : State := fun _ => none

section Run

variable (host : Host) (readable : Partition → Bool) (cutoff : Option Instant)
  (tree : StagingTree)

/-- The body of the loop of `run`: land what staging holds past the cursor, then move it. -/
def cover (acc : Landing × Nat) (kind : Kind) : Landing × Nat :=
  let (a, total) := acc
  let rows := readStaging host tree kind (a.state kind)
  let df := clampHorizon cutoff (frame host kind rows)
  let (lake, wrote) := writeDataset host kind readable a.lake df
  ({ lake, state := a.state.set kind (latestHour tree kind) }, total + wrote)

def run (a : Landing) : Landing × Nat :=
  [Kind.electrical, .weather].foldl (cover host readable cutoff tree) (a, 0)

end Run

end GridWitness.Acquirer
