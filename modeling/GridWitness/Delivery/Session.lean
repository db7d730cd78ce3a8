import GridWitness.Client.Process
import GridWitness.Delivery.Wire

namespace GridWitness.Delivery

open Client Server

universe u

/-- What a client and its server run on, and the node they share. -/
structure Link (Line : Type u) where
  py : Python
  codec : Codec Line
  pydantic : Pydantic
  rt : Runtime
  token : String
  nodeId : String

/-- What becomes of one POST: something on the way ends the exchange, or the server handles it and
its answer arrives or is lost. -/
inductive Fate
  | unprocessed (ending : Exchange)
  | processed (monotonic : ℚ) (lost : Option Exchange)

variable {Line : Type u}

namespace Link

variable (k : Link Line)

def authorization : Option String := some ("Bearer " ++ k.token)

/-- The request `post_samples` builds from the rows of a batch. -/
def request (items : List Item) : Post where
  authorization := k.authorization
  nodeId := k.nodeId
  electrical := rowsOf .electrical items
  weather := rowsOf .weather items

/-- The rows a request brings to the writer, in the order they are written. -/
def brought (s : App) (p : Post) (monotonic : ℚ) : List (Kind × Row) :=
  match p.validated k.pydantic with
  | none => []
  | some body =>
    match s.admitted k.rt { authorization := p.authorization, body, monotonic } with
    | none => []
    | some node =>
      (consentedRows node body .electrical).map (.electrical, ·) ++
        (consentedRows node body .weather).map (.weather, ·)

/-- One POST: the server after it, the rows brought to its writer, and how the exchange ends for
the client. -/
def post (s : App) (items : List Item) : Fate → App × List (Kind × Row) × Exchange
  | .unprocessed ending => (s, [], ending)
  | .processed monotonic lost =>
    let (s', ending) := serve k.pydantic k.rt s (k.request items) monotonic none none
    (s', k.brought s (k.request items) monotonic, lost.getD ending)

end Link

/-- The rows of the request a flush is waiting for. -/
def posted (f : Flush) : Option (List Item) :=
  match f.phase with
  | .push chunk => some chunk
  | .send => some (f.batch.map Captured.item)
  | _ => none

/-- `async_stop`, and a new coordinator over the same buffer. -/
def reload (k : Link Line) (c : Coordinator Line) (now later : Time) : Coordinator Line :=
  let fresh := fun buffer =>
    { pending := [], buffer, online := true, samplesTotal := 0 : Coordinator Line }
  if c.pending.isEmpty then fresh c.buffer
  else
    let buffer := c.buffer.append k.codec c.pending (k.py.iso now)
    match buffer.prune k.codec k.py later with
    | .error _ => fresh buffer
    | .ok (buffer, _) => fresh buffer

/-- One client and one server. `arrived` are the rows brought to the writer so far, oldest first. -/
structure Session (Line : Type u) where
  world : World Line
  app : App
  arrived : List (Kind × Row)

inductive Event
  | capture (rows : List Captured)
  | timer
  | resume (i : Nat) (fate : Fate) (now : Time)
  | stop (now later : Time)

namespace Session

def start (c : Coordinator Line) (buffered : List Captured) (s : App) : Session Line :=
  ⟨.start c buffered, s, []⟩

def step (k : Link Line) (x : Session Line) : Event → Session Line
  | .capture rows => { x with world := x.world.step k.py k.codec (.capture rows) }
  | .timer => { x with world := x.world.step k.py k.codec .timer }
  | .resume i fate now =>
    match x.world.flushes[i]?.bind posted with
    -- a step that waits for no POST reads no exchange
    | none => { x with world := x.world.step k.py k.codec (.resume i ⟨.clientError "", now⟩) }
    | some items =>
      let (app, brought, ending) := k.post x.app items fate
      { world := x.world.step k.py k.codec (.resume i ⟨ending, now⟩)
        app
        arrived := x.arrived ++ brought }
  | .stop now later =>
    { x with world := { x.world with coordinator := reload k x.world.coordinator now later } }

end Session

end GridWitness.Delivery
