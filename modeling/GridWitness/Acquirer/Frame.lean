import GridWitness.Server.Staging

namespace GridWitness.Acquirer

open Library Server

/-- A point in time, in nanoseconds of the Unix epoch. -/
abbrev Instant := Int

/-- What the acquirer leans on outside itself: Python floats as text, the timestamp reader of
pandas, and the calendar week a timestamp is filed under. A column of timestamps is read in the
one layout inferred from its first text. -/
structure Host where
  floatRepr : PyFloat → String
  parseFloat : String → Option PyFloat
  Layout : Type
  infer : String → Layout
  parse : Layout → String → Option Instant
  week : Instant → Nat × Nat

/-- The civil calendar, as nanoseconds of the epoch. -/
def instantOf (dt : DateTime) : Instant :=
  let y : Int := if dt.month ≤ 2 then dt.year - 1 else dt.year
  let m : Int := (dt.month + 9) % 12
  let days : Int := 365 * y + y / 4 - y / 100 + y / 400 + (153 * m + 2) / 5 + (dt.day - 1) - 719468
  (((days * 24 + dt.hour) * 60 + dt.minute) * 60 + dt.second) * 1000000000 + dt.microsecond * 1000

/-- A host for concrete runs: one layout, whole numbers, and the week of 6 July 2026. -/
def Host.july : Host where
  floatRepr
    | .fin q => toString q.num ++ ".0"
    | .inf negative => if negative then "-inf" else "inf"
    | .nan => "nan"
  parseFloat s := (Runtime.digits (s.toList.takeWhile (· ≠ '.'))).map fun n => .fin n
  Layout := Unit
  infer _ := ()
  parse _ s := (Runtime.isoSeconds s).map instantOf
  week _ := (2026, 28)

section Csv

variable (host : Host)

/-- A cell as the CSV writer prints it. -/
def cellText : Cell → String
  | .null => ""
  | .num v => host.floatRepr v
  | .int n => toString n
  | .text s => s

def dictRow (names l : Line) : Row :=
  (names.map (cellText host)).zip (l.map fun c => .text (cellText host c))

/-- `csv.DictReader`: the first line names the columns of the others. -/
def dictRows : List Line → List Row
  | [] => []
  | names :: ls => ls.map (dictRow host names)

end Csv

def hourKey (p : StagingPath) : String := p.date ++ "T" ++ p.hour

def pathLe (p q : StagingPath) : Prop :=
  p.date < q.date ∨ p.date = q.date ∧ p.hour ++ ".csv" ≤ q.hour ++ ".csv"

instance : DecidableRel pathLe := fun _ _ => inferInstanceAs (Decidable (_ ∨ _))

/-- The hour files of a kind, by day folder and file name. -/
def hourFiles (tree : StagingTree) (kind : Kind) : List StagingPath :=
  (tree.keys.filter (·.kind = kind)).insertionSort pathLe

def covered (since : Option String) (p : StagingPath) : Bool := since.any (hourKey p ≤ ·)

def readStaging (host : Host) (tree : StagingTree) (kind : Kind) (since : Option String) :
    List Row :=
  ((hourFiles tree kind).filter (!covered since ·)).flatMap fun p => dictRows host (tree.lines p)

def newer (best : Option String) (p : StagingPath) : Option String :=
  if best.all (· < hourKey p) then some (hourKey p) else best

def latestHour (tree : StagingTree) (kind : Kind) : Option String :=
  (hourFiles tree kind).foldl newer none

/-- A row of a frame: its timestamp and its other columns. -/
structure FrameRow where
  ts : Instant
  values : Row
  deriving DecidableEq

def tsColumn : Kind → String
  | .electrical => "ts_utc"
  | .weather => "time"

/-- The columns of a frame beside its timestamp. -/
def columns : Kind → List String
  | .electrical =>
    ["node_id", "phase", "ts_source", "voltage_v", "current_a", "power_w", "power_factor",
     "frequency_hz", "phase_angle_deg", "device_type", "firmware", "cadence_ms", "loc_tier",
     "loc_ref"]
  | .weather =>
    ["node_id", "ts_source", "temp", "rhum", "wspd", "wdir", "pres", "prcp",
     "solar_radiation_w_m2", "uv", "device_type", "loc_tier", "loc_ref", "cell_id"]

def numericColumns : Kind → List String
  | .electrical =>
    ["voltage_v", "current_a", "power_w", "power_factor", "frequency_hz", "phase_angle_deg"]
  | .weather => ["temp", "rhum", "wspd", "wdir", "pres", "prcp", "solar_radiation_w_m2", "uv"]

/-- The key of a lake row beside its timestamp. -/
def keyColumns : Kind → List String
  | .electrical => ["node_id", "phase"]
  | .weather => ["node_id"]

abbrev Key := Instant × List Cell

def FrameRow.key (kind : Kind) (r : FrameRow) : Key := (r.ts, (keyColumns kind).map r.values.get)

section Frame

variable (host : Host)

/-- A number in a frame, where NaN is a missing value. -/
def numberCell : Option PyFloat → Cell
  | none => .null
  | some .nan => .null
  | some v => .num v

def toFloat : Cell → Cell
  | .text s => if s = "" || s = "None" then .null else numberCell (host.parseFloat s)
  | .num v => numberCell (some v)
  | .int n => .num (.fin n)
  | .null => .null

def someText : Cell → Option String
  | .text s => if s = "" then none else some s
  | _ => none

/-- The layout pandas infers for a column. -/
def layoutOf (column : List Cell) : Option host.Layout :=
  (column.findSome? someText).map host.infer

def readTime (layout : Option host.Layout) (c : Cell) : Option Instant :=
  match layout, someText c with
  | some layout, some s => host.parse layout s
  | _, _ => none

/-- The timestamp of a cell read on its own. -/
def ownTime (c : Cell) : Option Instant := readTime host (layoutOf host [c]) c

def frameRow (kind : Kind) (layout : Option host.Layout) (r : Row) : Option FrameRow :=
  match readTime host layout (r.get (tsColumn kind)) with
  | none => none
  | some ts =>
    if r.get "node_id" = .null then none
    else
      some
        ⟨ts, (columns kind).map fun c =>
          (c, if c ∈ numericColumns kind then toFloat host (r.get c) else r.get c)⟩

/-- `frame_electrical` and `frame_weather`. -/
def frame (kind : Kind) (rows : List Row) : List FrameRow :=
  rows.filterMap (frameRow host kind (layoutOf host (rows.map (·.get (tsColumn kind)))))

end Frame

end GridWitness.Acquirer
