import GridWitness.Client.Buffer

namespace GridWitness.Client

open Server

/-! The text form of JSON, as `json.dumps` writes it and `json.loads` reads it. -/

namespace JsonText

def isSpace (c : Char) : Bool := [' ', '\t', '\n', '\r'].contains c

/-- The characters of numbers and of the words `json` knows. -/
def isAtom (c : Char) : Bool := "+-.0123456789EINaefilnrstuy".toList.contains c

def skip (cs : List Char) : List Char := cs.dropWhile isSpace

/-- `0|[1-9]\d*`. -/
def natural (cs : List Char) : Option Nat :=
  if cs ≠ [] ∧ cs.all Char.isDigit ∧ (cs.head? = some '0' → cs = ['0']) then
    some (Nat.ofDigitChars 10 cs 0)
  else none

def integer : List Char → Option Int
  | '-' :: cs => (natural cs).map fun n : Nat => -(n : Int)
  | cs => (natural cs).map Int.ofNat

def digits (cs : List Char) : Bool := !cs.isEmpty && cs.all Char.isDigit

/-- `([eE][-+]?\d+)?`. -/
def exponent : List Char → Bool
  | [] => true
  | e :: cs =>
    (e == 'e' || e == 'E') &&
      match cs with
      | '+' :: cs | '-' :: cs => digits cs
      | cs => digits cs

/-- `NUMBER_RE`. -/
def isNumber (cs : List Char) : Bool :=
  let whole := cs.takeWhile fun c => c != '.' && c != 'e' && c != 'E'
  (integer whole).isSome &&
    match cs.drop whole.length with
    | '.' :: cs => digits (cs.takeWhile Char.isDigit) && exponent (cs.dropWhile Char.isDigit)
    | cs => exponent cs

end JsonText

/-- The text of finite floats: `float.__repr__`, and `float` on the text of a number. -/
structure FloatText where
  repr : ℚ → List Char
  read : List Char → PyFloat
  isAtom : ∀ q, ∀ c ∈ repr q, JsonText.isAtom c = true
  isNumber : ∀ q, JsonText.isNumber (repr q) = true
  integer : ∀ q, JsonText.integer (repr q) = none
  read_repr : ∀ q, read (repr q) = .fin q

namespace JsonText

/-- `ESCAPE_DCT`. -/
def escapes : List (Char × Char) :=
  [('\\', '\\'), ('"', '"'), ('\x08', 'b'), ('\x0c', 'f'), ('\n', 'n'), ('\r', 'r'), ('\t', 't')]

/-- `BACKSLASH`. -/
def unescapes : List (Char × Char) :=
  [('"', '"'), ('\\', '\\'), ('/', '/'), ('b', '\x08'), ('f', '\x0c'), ('n', '\n'), ('r', '\r'),
    ('t', '\t')]

/-- The units of UTF-16. -/
def codeUnits (c : Char) : List Nat :=
  if c.toNat < 65536 then [c.toNat]
  else [55296 + (c.toNat - 65536) / 1024, 56320 + (c.toNat - 65536) % 1024]

def hexEscape (u : Nat) : List Char :=
  ['\\', 'u', Nat.digitChar (u / 4096), Nat.digitChar (u / 256 % 16), Nat.digitChar (u / 16 % 16),
    Nat.digitChar (u % 16)]

/-- A character in a string, in ASCII. -/
def escape (c : Char) : List Char :=
  match escapes.lookup c with
  | some letter => ['\\', letter]
  | none => if 32 ≤ c.toNat ∧ c.toNat ≤ 126 then [c] else (codeUnits c).flatMap hexEscape

def quoted (s : String) : List Char := '"' :: (s.toList.flatMap escape ++ ['"'])

def hexValue (c : Char) : Option Nat :=
  if '0' ≤ c ∧ c ≤ '9' then some (c.toNat - '0'.toNat)
  else if 'a' ≤ c ∧ c ≤ 'f' then some (c.toNat - 'a'.toNat + 10)
  else if 'A' ≤ c ∧ c ≤ 'F' then some (c.toNat - 'A'.toNat + 10)
  else none

/-- What follows a backslash. -/
def unescape : List Char → Option (Nat × List Char)
  | [] => none
  | 'u' :: a :: b :: c :: d :: cs => do
    let a ← hexValue a
    let b ← hexValue b
    let c ← hexValue c
    let d ← hexValue d
    some (4096 * a + 256 * b + 16 * c + d, cs)
  | c :: cs => (unescapes.lookup c).map fun c => (c.toNat, cs)

/-- The units of a string up to its closing quote; a control character stands in none. -/
def units : Nat → List Char → Option (List Nat × List Char)
  | 0, _ | _ + 1, [] => none
  | _ + 1, '"' :: cs => some ([], cs)
  | n + 1, '\\' :: cs => do
    let (u, cs) ← unescape cs
    let (us, cs) ← units n cs
    some (u :: us, cs)
  | n + 1, c :: cs =>
    if c.toNat < 32 then none
    else do
      let (us, cs) ← units n cs
      some (c.toNat :: us, cs)

/-- The characters of units. A lone surrogate, which Python keeps, stands in no `String`. -/
def characters : List Nat → Option (List Char)
  | [] => some []
  | u :: us =>
    if 55296 ≤ u ∧ u < 57344 then
      match us with
      | [] => none
      | v :: us =>
        if u < 56320 ∧ 56320 ≤ v ∧ v < 57344 then
          (Char.ofNat (65536 + (u - 55296) * 1024 + (v - 56320)) :: ·) <$> characters us
        else none
    else (Char.ofNat u :: ·) <$> characters us

/-- A string from behind its opening quote. -/
def string (cs : List Char) : Option (String × List Char) := do
  let (us, cs) ← units (cs.length + 1) cs
  let s ← characters us
  some (String.ofList s, cs)

/-- `_CONSTANTS`, and the three words of JSON. -/
def words : List (List Char × Json) :=
  [("null".toList, .null), ("true".toList, .bool true), ("false".toList, .bool false),
    ("NaN".toList, .float .nan), ("Infinity".toList, .float (.inf false)),
    ("-Infinity".toList, .float (.inf true))]

def integerText (n : Int) : List Char :=
  if n < 0 then '-' :: Nat.toDigits 10 n.natAbs else Nat.toDigits 10 n.natAbs

variable (floats : FloatText)

def atom (token : List Char) : Option Json :=
  match integer token with
  | some n => some (.int n)
  | none => if isNumber token then some (.float (floats.read token)) else words.lookup token

mutual

def dumps : Json → List Char
  | .null => "null".toList
  | .bool b => if b then "true".toList else "false".toList
  | .int n => integerText n
  | .float (.fin q) => floats.repr q
  | .float (.inf negative) => if negative then "-Infinity".toList else "Infinity".toList
  | .float .nan => "NaN".toList
  | .str s => quoted s
  | .arr values => '[' :: (dumpsValues values ++ [']'])
  | .obj fields => '{' :: (dumpsFields fields ++ ['}'])

def dumpsValues : List Json → List Char
  | [] => []
  | [v] => dumps v
  | v :: w :: vs => dumps v ++ ',' :: ' ' :: dumpsValues (w :: vs)

def dumpsFields : List (String × Json) → List Char
  | [] => []
  | [(k, v)] => quoted k ++ ':' :: ' ' :: dumps v
  | (k, v) :: f :: fs => quoted k ++ ':' :: ' ' :: (dumps v ++ ',' :: ' ' :: dumpsFields (f :: fs))

end

mutual

/-- A value at the head of a text, and what follows it. An object keeps its fields as they stand. -/
def value : Nat → List Char → Option (Json × List Char)
  | 0, _ => none
  | _ + 1, '"' :: cs => do
    let (s, cs) ← string cs
    some (.str s, cs)
  | n + 1, '{' :: cs =>
    match skip cs with
    | '}' :: cs => some (.obj [], cs)
    | cs => do
      let (fs, cs) ← fields n cs
      some (.obj fs, cs)
  | n + 1, '[' :: cs =>
    match skip cs with
    | ']' :: cs => some (.arr [], cs)
    | cs => do
      let (vs, cs) ← values n cs
      some (.arr vs, cs)
  | _ + 1, cs => do
    let v ← atom floats (cs.takeWhile isAtom)
    some (v, cs.dropWhile isAtom)

/-- One field or more, up to the closing bracket. -/
def fields : Nat → List Char → Option (List (String × Json) × List Char)
  | n + 1, '"' :: cs => do
    let (k, cs) ← string cs
    match skip cs with
    | ':' :: cs => do
      let (v, cs) ← value n (skip cs)
      match skip cs with
      | '}' :: cs => some ([(k, v)], cs)
      | ',' :: cs => do
        let (fs, cs) ← fields n (skip cs)
        some ((k, v) :: fs, cs)
      | _ => none
    | _ => none
  | _, _ => none

def values : Nat → List Char → Option (List Json × List Char)
  | 0, _ => none
  | n + 1, cs => do
    let (v, cs) ← value n cs
    match skip cs with
    | ']' :: cs => some ([v], cs)
    | ',' :: cs => do
      let (vs, cs) ← values n (skip cs)
      some (v :: vs, cs)
    | _ => none

end

def loads (cs : List Char) : Option Json := do
  let (v, rest) ← value floats (cs.length + 1) (skip cs)
  if (skip rest).isEmpty then some v else none

end JsonText

end GridWitness.Client
