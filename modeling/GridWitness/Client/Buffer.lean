import GridWitness.Client.Api

namespace GridWitness.Client

open Server

universe u

/-- A row as it is captured, with the list of the request it goes into. -/
abbrev Captured := Kind × Json

/-- A row as the buffer gives it back. -/
abbrev Item := Json × Json

def Captured.item (r : Captured) : Item := (.str r.1.value, r.2)

/-- What `json.loads` makes of a line: a value, a `JSONDecodeError`, or an exception of another kind, as
for an integer of too many digits or values nested too deep. -/
inductive Loading
  | value (v : Json)
  | undecodable
  | raised (e : PyError)

def Loading.ofOption : Option Json → Loading
  | some v => .value v
  | none => .undecodable

/-- The text of a JSON value on a line of its own. -/
structure Codec (Line : Type u) where
  dumps : Json → Line
  loads : Line → Loading
  lossless : ∀ value, loads (dumps value) = .value value

/-- Lines kept as the values they hold. -/
def Codec.plain : Codec Json := ⟨id, .value, fun _ => rfl⟩

/-- What one line gives its reader. -/
inductive Reading (α : Type u)
  | value (a : α)
  | skipped
  | raised (e : PyError)

structure DiskBuffer (Line : Type u) where
  file : Option (List Line)
  maxRows : Nat
  maxAgeH : Nat

variable {Line : Type u}

namespace Codec

variable (codec : Codec Line)

def record (nowIso : String) (r : Captured) : Line :=
  codec.dumps (.obj [("kind", .str r.1.value), ("row", r.2), ("buffered_ts", .str nowIso)])

/-- The item of a line; a value that is no object has no fields to ask for. -/
def item (l : Line) : Reading Item :=
  match codec.loads l with
  | .undecodable => .skipped
  | .value (.obj fields) =>
    match fields.lookup "kind", fields.lookup "row" with
    | some kind, some row => .value (kind, row)
    | _, _ => .skipped
  | .value _ => .raised .type
  | .raised e => .raised e

/-- When a line was buffered; a prune, unlike a peek, catches every `ValueError`. -/
def bufferedTs (py : Python) (l : Line) : Reading Time :=
  match codec.loads l with
  | .undecodable | .raised .value => .skipped
  | .value (.obj fields) =>
    match fields.lookup "buffered_ts" with
    | none => .skipped
    | some (.str s) => ((py.parseIso s).map .value).getD .skipped
    | some _ => .raised .attribute
  | .value _ => .raised .type
  | .raised e => .raised e

/-- The items of the first lines that hold one, as many as asked for. -/
def items : Nat → List Line → Except PyError (List Item)
  | 0, _ => .ok []
  | _ + 1, [] => .ok []
  | n + 1, l :: ls =>
    match codec.item l with
    | .value item => (item :: ·) <$> items n ls
    | .skipped => items (n + 1) ls
    | .raised e => .error e

/-- The lines not buffered before a cutoff. -/
def fresh (py : Python) (cutoff : Time) : List Line → Except PyError (List Line)
  | [] => .ok []
  | l :: ls =>
    match codec.bufferedTs py l with
    | .value ts => if ts < cutoff then fresh py cutoff ls else (l :: ·) <$> fresh py cutoff ls
    | .skipped => fresh py cutoff ls
    | .raised e => .error e

end Codec

namespace DiskBuffer

variable (codec : Codec Line) (b : DiskBuffer Line)

def lines : List Line := b.file.getD []

def append (items : List Captured) (nowIso : String) : DiskBuffer Line :=
  if items.isEmpty then b
  else { b with file := some (b.lines ++ items.map (codec.record nowIso)) }

def count : Nat := b.lines.length

def peek (maxRows : Nat) : Except PyError (List Item) := codec.items maxRows b.lines

/-- Remove the first `n` lines. -/
def commit (n : Nat) : DiskBuffer Line :=
  if n = 0 ∨ b.file.isNone then b else { b with file := some (b.lines.drop n) }

def hour : Time := 3600000000

/-- `kept[-maxRows:]`, which keeps all when `maxRows` is zero. -/
def newest (maxRows : Nat) (kept : List Line) : List Line :=
  if maxRows = 0 then kept else kept.drop (kept.length - maxRows)

/-- Enforce the age and row caps; also the number of rows dropped. -/
def prune (py : Python) (now : Time) : Except PyError (DiskBuffer Line × Nat) :=
  match b.file with
  | none => .ok (b, 0)
  | some lines => do
    let kept ← codec.fresh py (now - b.maxAgeH * hour) lines
    let old := lines.length - kept.length
    let (kept, dropped) :=
      if b.maxRows < kept.length then (newest b.maxRows kept, old + (kept.length - b.maxRows))
      else (kept, old)
    .ok (if dropped = 0 then b else { b with file := some kept }, dropped)

end DiskBuffer

/-- A character before the first of some lines. -/
def prepend (c : Char) : List (List Char) → List (List Char)
  | [] => [[c]]
  | l :: ls => (c :: l) :: ls

/-- The lines of a file read as text, whichever line break ends them. -/
def readLines : List Char → List (List Char)
  | [] => []
  | '\r' :: '\n' :: cs => [] :: readLines cs
  | '\r' :: cs => [] :: readLines cs
  | '\n' :: cs => [] :: readLines cs
  | c :: cs => prepend c (readLines cs)

/-- The buffer with its file as text: `append` writes at the end, whatever stands there. -/
structure TextBuffer where
  text : Option (List Char)
  maxRows : Nat
  maxAgeH : Nat

namespace TextBuffer

variable (codec : Codec (List Char)) (b : TextBuffer)

def append (items : List Captured) (nowIso : String) : TextBuffer :=
  if items.isEmpty then b
  else
    { b with
      text := some (b.text.getD [] ++ items.flatMap fun r => codec.record nowIso r ++ ['\n']) }

/-- The lines that `peek`, `commit` and `prune` go over. -/
def toLines : DiskBuffer (List Char) := ⟨b.text.map readLines, b.maxRows, b.maxAgeH⟩

end TextBuffer

end GridWitness.Client
