import GridWitness.Client.Buffer

namespace GridWitness.Client

open Server

universe u

def drainChunk : Nat := 2000

structure Coordinator (Line : Type u) where
  pending : List Captured
  buffer : DiskBuffer Line
  online : Bool
  samplesTotal : Int

/-- The rows of one list of the request. -/
def rowsOf (kind : Kind) (items : List Item) : List Json :=
  items.filterMap fun (k, row) =>
    match k with
    | .str k => if k = kind.value then some row else none
    | _ => none

/-- `int(resp.get("accepted", 0))`. -/
def accepted (py : Python) : Json → Except PyError Int
  | .obj fields => ((fields.lookup "accepted").getD (.int 0)).toInt py
  | _ => .error .attribute

/-- `_push_items`, from how its one exchange ends: the number of rows accepted. -/
def pushItems (py : Python) (ex : Exchange) : Except Raised Int := do
  let resp ← ApiClient.postSamples py ex
  (accepted py resp).mapError .other

/-- Where a call of `_on_flush` stands between two awaits. `drained` is what `_drain_disk` returned;
`commit` keeps how the exchange of its chunk ended. -/
inductive Phase
  | peek
  | push (chunk : List Item)
  | commit (chunk : List Item) (answer : Exchange)
  | send
  | append (drained : Bool)
  | prune (drained : Bool)
  | echo
  | ended (raised : Option PyError)

structure Flush where
  batch : List Captured
  phase : Phase

/-- What the world gives a step: the exchange it may wait for, and the clock. -/
structure Answer where
  exchange : Exchange
  now : Time

/-- What a step did to rows. -/
inductive Effect (Line : Type u)
  | drained (chunk : List Item) (answer : Exchange)
  | sent (batch : List Captured) (answer : Exchange)
  | committed (lines : List Line) (answer : Exchange)
  | appended (batch : List Captured)
  | pruned (dropped : Nat)

variable {Line : Type u}

namespace Coordinator

variable (py : Python) (codec : Codec Line)

/-- The swap at the head of `_on_flush`. -/
def onFlush (c : Coordinator Line) : Coordinator Line × Flush :=
  ({ c with pending := [] }, ⟨c.pending, .peek⟩)

/-- One step of a flush, up to its next await, and what it did. -/
def resume (c : Coordinator Line) (f : Flush) (a : Answer) :
    Coordinator Line × Flush × Option (Effect Line) :=
  match f.phase with
  | .peek =>
    match c.buffer.peek codec drainChunk with
    | .error e => (c, { f with phase := .ended (some e) }, none)
    | .ok [] => (c, { f with phase := if f.batch.isEmpty then .echo else .send }, none)
    | .ok chunk => (c, { f with phase := .push chunk }, none)
  | .push chunk =>
    let effect := some (.drained chunk a.exchange)
    match pushItems py a.exchange with
    | .ok accepted =>
      ({ c with samplesTotal := c.samplesTotal + accepted },
        { f with phase := .commit chunk a.exchange }, effect)
    | .error (.api err) =>
      if err.retryable then
        if f.batch.isEmpty then ({ c with online := false }, { f with phase := .ended none }, effect)
        else (c, { f with phase := .append false }, effect)
      else (c, { f with phase := .commit chunk a.exchange }, effect)
    | .error (.other e) => (c, { f with phase := .ended (some e) }, effect)
  | .commit chunk answer =>
    ({ c with buffer := c.buffer.commit chunk.length }, { f with phase := .peek },
      some (.committed (c.buffer.lines.take chunk.length) answer))
  | .send =>
    let effect := some (.sent f.batch a.exchange)
    match pushItems py a.exchange with
    | .ok accepted =>
      ({ c with samplesTotal := c.samplesTotal + accepted, online := true },
        { f with phase := .echo }, effect)
    | .error (.api err) =>
      if err.retryable then (c, { f with phase := .append true }, effect)
      else (c, { f with phase := .echo }, effect)
    | .error (.other e) => (c, { f with phase := .ended (some e) }, effect)
  | .append drained =>
    ({ c with buffer := c.buffer.append codec f.batch (py.iso a.now) },
      { f with phase := .prune drained }, some (.appended f.batch))
  | .prune drained =>
    match c.buffer.prune codec py a.now with
    | .error e => (c, { f with phase := .ended (some e) }, none)
    | .ok (buffer, dropped) =>
      ({ c with buffer := buffer, online := false },
        { f with phase := if drained then .echo else .ended none }, some (.pruned dropped))
  -- `_update_offset` moves no row, and the flush is over however its exchange ends
  | .echo => (c, { f with phase := .ended none }, none)
  | .ended _ => (c, f, none)

/-- One push of the loop of `_drain_disk`, with the lines its commit removed. -/
structure Round (Line : Type u) where
  chunk : List Item
  answer : Exchange
  committed : List Line

/-- `_drain_disk` on its own, from how its exchanges end: its rounds, and what it returns or raises.
It is none when the loop waits for another exchange. -/
def drainDisk (c : Coordinator Line) (answers : List Exchange) :
    Option (Coordinator Line × List (Round Line) × Except PyError Bool) :=
  match c.buffer.peek codec drainChunk with
  | .error e => some (c, [], .error e)
  | .ok [] => some (c, [], .ok true)
  | .ok chunk =>
    match answers with
    | [] => none
    | a :: answers =>
      let next total :=
        (drainDisk { c with buffer := c.buffer.commit chunk.length, samplesTotal := total } answers).map
          fun (c', rounds, result) =>
            (c', ⟨chunk, a, c.buffer.lines.take chunk.length⟩ :: rounds, result)
      match pushItems py a with
      | .ok accepted => next (c.samplesTotal + accepted)
      | .error (.api err) =>
        if err.retryable then some (c, [⟨chunk, a, []⟩], .ok false) else next c.samplesTotal
      | .error (.other e) => some (c, [⟨chunk, a, []⟩], .error e)

end Coordinator

end GridWitness.Client
