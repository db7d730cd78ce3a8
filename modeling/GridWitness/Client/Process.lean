import GridWitness.Client.Coordinator

namespace GridWitness.Client

universe u

/-- One flush on its own, with what it did so far, newest first. -/
structure Attempt (Line : Type u) where
  coordinator : Coordinator Line
  flush : Flush
  trace : List (Effect Line)

/-- The event loop of the client: any number of flushes over one coordinator. `captured` are the
rows that ever came in. -/
structure World (Line : Type u) where
  coordinator : Coordinator Line
  flushes : List Flush
  trace : List (Effect Line)
  captured : List Captured

inductive Event
  | capture (rows : List Captured)
  | timer
  | resume (i : Nat) (answer : Answer)

variable {Line : Type u} (py : Python) (codec : Codec Line)

namespace Attempt

def start (c : Coordinator Line) : Attempt Line := ⟨c.onFlush.1, c.onFlush.2, []⟩

def step (s : Attempt Line) (a : Answer) : Attempt Line :=
  let (c, f, effect) := s.coordinator.resume py codec s.flush a
  ⟨c, f, effect.toList ++ s.trace⟩

end Attempt

namespace World

/-- A coordinator with nothing in memory, over a buffer with some rows. -/
def start (c : Coordinator Line) (buffered : List Captured) : World Line :=
  ⟨{ c with pending := [] }, [], [], buffered⟩

def step (x : World Line) : Event → World Line
  | .capture rows =>
    { x with
      coordinator := { x.coordinator with pending := x.coordinator.pending ++ rows }
      captured := x.captured ++ rows }
  | .timer =>
    let (c, f) := x.coordinator.onFlush
    { x with coordinator := c, flushes := x.flushes ++ [f] }
  | .resume i a =>
    match x.flushes[i]? with
    | none => x
    | some f =>
      let (c, f, effect) := x.coordinator.resume py codec f a
      { x with coordinator := c, flushes := x.flushes.set i f, trace := effect.toList ++ x.trace }

end World

end GridWitness.Client
