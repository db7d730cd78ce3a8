namespace GridWitness.Server

/-- A timestamp in UTC. -/
structure DateTime where
  year : Nat
  month : Nat
  day : Nat
  hour : Nat
  minute : Nat
  second : Nat
  microsecond : Nat
  deriving DecidableEq

def zeroPad (width n : Nat) : String :=
  let digits := toString n
  String.ofList (List.replicate (width - digits.length) '0') ++ digits

/-- `{dt:%Y-%m-%d}`. -/
def DateTime.date (dt : DateTime) : String :=
  zeroPad 4 dt.year ++ "-" ++ zeroPad 2 dt.month ++ "-" ++ zeroPad 2 dt.day

/-- `{dt:%H}`. -/
def DateTime.hourName (dt : DateTime) : String := zeroPad 2 dt.hour

/-- The library functions the server leans on: Unicode text, hashing and ISO-8601.
`parseIso` is `fromisoformat`, read as UTC when naive and converted to UTC otherwise. -/
structure Runtime where
  strip : String → String
  upper : String → String
  lower : String → String
  isalpha : Char → Bool
  sha256 : String → String
  parseIso : String → Option DateTime

namespace Runtime

def digits (cs : List Char) : Option Nat :=
  if cs.all Char.isDigit then some (cs.foldl (fun n c => 10 * n + (c.toNat - '0'.toNat)) 0)
  else none

/-- The layout `YYYY-MM-DDTHH:MM:SSZ` of ISO-8601. -/
def isoSeconds (s : String) : Option DateTime :=
  let cs := s.toList
  let field (start width : Nat) := digits ((cs.drop start).take width)
  if cs.length = 20 ∧ [4, 7, 10, 13, 16, 19].map (cs.getD · ' ') = ['-', '-', 'T', ':', ':', 'Z']
  then
    match field 0 4, field 5 2, field 8 2, field 11 2, field 14 2, field 17 2 with
    | some year, some month, some day, some hour, some minute, some second =>
      if 1 ≤ year ∧ 1 ≤ month ∧ month ≤ 12 ∧ 1 ≤ day ∧ day ≤ 28 ∧ hour < 24 ∧ minute < 60 ∧
          second < 60 then
        some ⟨year, month, day, hour, minute, second, 0⟩
      else none
    | _, _, _, _, _, _ => none
  else none

def stripAscii (s : String) : String :=
  String.ofList
    ((s.toList.dropWhile Char.isWhitespace).reverse.dropWhile Char.isWhitespace).reverse

/-- A runtime for concrete runs: ASCII text, one timestamp layout and two known hashes. -/
def ascii : Runtime where
  strip := stripAscii
  upper s := String.ofList (s.toList.map Char.toUpper)
  lower s := String.ofList (s.toList.map Char.toLower)
  isalpha := Char.isAlpha
  sha256 s :=
    if s = "secret" then "2bb80d537b1da3e38bd30361aa855686bde0eacd7162fef6a25fe97bf527a25b"
    else if s = "token" then "3c469e9d6c5875d37a43f353d4f88e61fcf812c66eee3457465a40b0da4153e0"
    else s
  parseIso := isoSeconds

end Runtime

end GridWitness.Server
