import Mathlib.Data.List.Dedup
import GridWitness.Acquirer.Frame

namespace GridWitness.Acquirer

open Library Server

abbrev Partition := Kind × Nat × Nat

/-- The parquet files of both datasets, by week. -/
abbrev Lake := Table Partition (List FrameRow)

/-- The order of `sort_values` on the key columns, nulls last. -/
def cellsLe : List Cell → List Cell → Bool
  | .text a :: as, .text b :: bs => if a = b then cellsLe as bs else a < b
  | .null :: as, .null :: bs => cellsLe as bs
  | .null :: _, _ :: _ => false
  | _, _ => true

def keyLe (k j : Key) : Bool := k.1 < j.1 || k.1 = j.1 && cellsLe k.2 j.2

section Merge

variable (kind : Kind)

def sortByKey (rows : List FrameRow) : List FrameRow :=
  rows.insertionSort fun a b => keyLe (a.key kind) (b.key kind)

/-- `drop_duplicates` on the key, keeping the last row of each. -/
def keepLast : List FrameRow → List FrameRow
  | [] => []
  | r :: rows => if rows.any (·.key kind = r.key kind) then keepLast rows else r :: keepLast rows

/-- A row with its nulls filled from an older row of the same key. -/
def fill (new old : FrameRow) : FrameRow :=
  { new with values := new.values.map fun (c, v) => (c, if v = .null then old.values.get c else v) }

def restrict (r : FrameRow) : FrameRow :=
  { r with values := (columns kind).map fun c => (c, r.values.get c) }

def fillFrom (old : List FrameRow) (new : FrameRow) : FrameRow :=
  match old.find? (·.key kind = new.key kind) with
  | none => new
  | some o => fill new o

/-- `new.combine_first(old)` over frames with unique keys. -/
def combineFirst (new old : List FrameRow) : List FrameRow :=
  new.map (fillFrom kind old) ++
  (old.filter fun o => !new.any (·.key kind = o.key kind)).map (restrict kind)

def merge (payload prev : List FrameRow) : List FrameRow :=
  combineFirst kind (keepLast kind payload) (keepLast kind prev)

end Merge

section Write

variable (host : Host) (kind : Kind) (readable : Partition → Bool)

/-- Land the rows of one week; an unreadable file is skipped. -/
def writePartition (lake : Lake) (week : Nat × Nat) (payload : List FrameRow) : Lake × Nat :=
  match lake.lookup (kind, week) with
  | none => (lake.replaceRow (kind, week) (sortByKey kind payload), payload.length)
  | some prev =>
    if readable (kind, week) then
      (lake.replaceRow (kind, week) (sortByKey kind (merge kind payload prev)), payload.length)
    else (lake, 0)

def weekLe (w v : Nat × Nat) : Bool := w.1 < v.1 || w.1 = v.1 && w.2 ≤ v.2

def weeks (df : List FrameRow) : List (Nat × Nat) :=
  ((df.map (host.week ·.ts)).dedup).insertionSort (weekLe · ·)

def writeWeek (df : List FrameRow) (acc : Lake × Nat) (week : Nat × Nat) : Lake × Nat :=
  let (lake, wrote) := writePartition kind readable acc.1 week (df.filter (host.week ·.ts = week))
  (lake, acc.2 + wrote)

def writeDataset (lake : Lake) (df : List FrameRow) : Lake × Nat :=
  (weeks host df).foldl (writeWeek host kind readable df) (lake, 0)

end Write

end GridWitness.Acquirer
