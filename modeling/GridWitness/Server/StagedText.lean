import GridWitness.Library.Csv
import GridWitness.Server.Staging

namespace GridWitness.Server

open Library

/-- What `csv` writes and reads at its defaults, with the limit it puts on a field. -/
def excel : Csv.Dialect Char where
  delimiter := ','
  quotechar := '"'
  cr := '\r'
  lf := '\n'
  fieldLimit := 131072
  distinct := by decide

/-- The staging files as they are on disk. -/
abbrev StagedTexts := Table StagingPath (List Char)

namespace StagedTexts

def text (texts : StagedTexts) (p : StagingPath) : List Char := (texts.lookup p).getD []

/-- Open a file for append, creating it, and write a text. -/
def append (texts : StagedTexts) (p : StagingPath) (cs : List Char) : StagedTexts :=
  texts.replaceRow p (texts.text p ++ cs)

end StagedTexts

/-- Where the file system makes an append raise: in which file of the batch, and how many
characters reached it. Opening the file itself fails at `none`. -/
structure TornWrite where
  file : Nat
  written : Option Nat

structure TextWriter where
  texts : StagedTexts
  dedupe : Deduper

section Text

variable (floatRepr : PyFloat → String)

/-- A value as `csv` prints it. -/
def Cell.print : Cell → List Char
  | .null => []
  | .num v => (floatRepr v).toList
  | .int n => (toString n).toList
  | .text s => s.toList

def Line.print (l : Line) : List Char := Csv.writeRow excel (l.map (Cell.print floatRepr))

def printLines (ls : List Line) : List Char := ls.flatMap (Line.print floatRepr)

/-- A value no longer than what the reader takes for a field. -/
def Cell.Fits (c : Cell) : Prop := (c.print floatRepr).length ≤ excel.fieldLimit

instance (c : Cell) : Decidable (c.Fits floatRepr) :=
  inferInstanceAs (Decidable ((c.print floatRepr).length ≤ excel.fieldLimit))

namespace TextWriter

open StagingWriter

/-- What `DictWriter` sends to one file: a header first if the file is new. -/
def output (columns : List String) (texts : StagedTexts) (p : StagingPath) (group : List Row) :
    List Char :=
  let rows := group.flatMap fun r => (csvLine columns r).print floatRepr
  if p ∈ texts then rows else Line.print floatRepr (header columns) ++ rows

def appendBuckets (columns : List String) (texts : StagedTexts) :
    Option TornWrite → List (StagingPath × List Row) → StagedTexts × Bool
  | _, [] => (texts, true)
  | some ⟨0, none⟩, _ :: _ => (texts, false)
  | some ⟨0, some n⟩, (p, group) :: _ =>
    (texts.append p ((output floatRepr columns texts p group).take n), false)
  | some ⟨k + 1, written⟩, (p, group) :: rest =>
    appendBuckets columns (texts.append p (output floatRepr columns texts p group))
      (some ⟨k, written⟩) rest
  | none, (p, group) :: rest =>
    appendBuckets columns (texts.append p (output floatRepr columns texts p group)) none rest

variable (rt : Runtime) (kind : Kind) (columns keyFields : List String) (tsField : String)
  (torn : Option TornWrite)

/-- `_append`, down to the characters it puts into the files. -/
def append (texts : StagedTexts) (rows : List Row) : StagedTexts × Bool :=
  match paths rt kind tsField rows with
  | none => (texts, false)
  | some located =>
    let buckets := Bucket.mapGroups (·.map (·.2)) (Bucket.bucket (·.1) located)
    appendBuckets floatRepr columns texts torn buckets

def write (w : TextWriter) (rows : List Row) : TextWriter × Option (Nat × Nat) :=
  let (dedupe, unique, dups) := w.dedupe.filterNew keyFields rows
  let (texts, completed) := append floatRepr rt kind columns tsField torn w.texts unique
  (⟨texts, dedupe⟩, if completed then some (unique.length, dups) else none)

end TextWriter

end Text

/-- A relation between the lines of a file and its text that appending keeps. -/
structure Extends (floatRepr : PyFloat → String) (R : List Line → List Char → Prop) : Prop where
  fresh : R [] []
  append : ∀ {lines text}, R lines text → ∀ ls, R (lines ++ ls) (text ++ printLines floatRepr ls)

/-- Two trees of the same files, related file by file. -/
abbrev FilesRel (R : List Line → List Char → Prop) : StagingTree → StagedTexts → Prop :=
  Table.Rel fun _ => R

section Refine

variable {floatRepr : PyFloat → String} {R : List Line → List Char → Prop} {tree : StagingTree}
  {texts : StagedTexts}

theorem printLines_append (ls ls' : List Line) :
    printLines floatRepr (ls ++ ls') = printLines floatRepr ls ++ printLines floatRepr ls' :=
  List.flatMap_append

namespace FilesRel

theorem mem (h : FilesRel R tree texts) (p : StagingPath) : p ∈ tree ↔ p ∈ texts := by
  rw [AList.mem_keys, AList.mem_keys, h.keys]

theorem text (hR : Extends floatRepr R) (h : FilesRel R tree texts) (p : StagingPath) :
    R (tree.lines p) (texts.text p) := by
  rcases h.lookup p with ⟨hlines, htext⟩ | ⟨ls, cs, hlines, htext, hfile⟩
  · simpa [StagedTexts.text, StagingTree.lines, hlines, htext] using hR.fresh
  · simpa [StagedTexts.text, StagingTree.lines, hlines, htext] using hfile

theorem append (hR : Extends floatRepr R) (h : FilesRel R tree texts) (p : StagingPath)
    (ls : List Line) :
    FilesRel R (tree.appendLines p ls) (texts.append p (printLines floatRepr ls)) :=
  h.replaceRow (hR.append (text hR h p) ls)

end FilesRel

theorem printLines_output (h : FilesRel R tree texts) (columns : List String) (p : StagingPath)
    (group : List Row) :
    TextWriter.output floatRepr columns texts p group =
      printLines floatRepr (StagingWriter.output columns tree p group) := by
  simp only [TextWriter.output, StagingWriter.output, FilesRel.mem h p, printLines]
  split
  · rw [List.flatMap_map]
  · rw [List.flatMap_cons, List.flatMap_map]

theorem appendBuckets_rel (hR : Extends floatRepr R) (columns : List String)
    (buckets : List (StagingPath × List Row)) (h : FilesRel R tree texts) :
    FilesRel R (StagingWriter.appendBuckets columns tree none buckets).1
        (TextWriter.appendBuckets floatRepr columns texts none buckets).1 ∧
      (StagingWriter.appendBuckets columns tree none buckets).2 =
        (TextWriter.appendBuckets floatRepr columns texts none buckets).2 := by
  induction buckets generalizing tree texts with
  | nil => exact ⟨h, rfl⟩
  | cons bucket buckets ih =>
    obtain ⟨p, group⟩ := bucket
    have hfile := FilesRel.append hR h p (StagingWriter.output columns tree p group)
    rw [← printLines_output h] at hfile
    exact ih hfile

theorem append_rel (hR : Extends floatRepr R) (rt : Runtime) (kind : Kind) (columns : List String)
    (tsField : String) (rows : List Row) (h : FilesRel R tree texts) :
    FilesRel R (StagingWriter.append rt kind columns tsField none tree rows).1
        (TextWriter.append floatRepr rt kind columns tsField none texts rows).1 ∧
      (StagingWriter.append rt kind columns tsField none tree rows).2 =
        (TextWriter.append floatRepr rt kind columns tsField none texts rows).2 := by
  simp only [StagingWriter.append, TextWriter.append]
  cases StagingWriter.paths rt kind tsField rows with
  | none => exact ⟨h, rfl⟩
  | some located => exact appendBuckets_rel hR columns _ h

/-- A write of texts refines the write of lines: the same window, the same answer. -/
theorem write_rel (hR : Extends floatRepr R) (rt : Runtime) (kind : Kind)
    (columns keyFields : List String) (tsField : String) {w : StagingWriter} {v : TextWriter}
    (rows : List Row) (hdedupe : w.dedupe = v.dedupe) (h : FilesRel R w.tree v.texts) :
    let w' := StagingWriter.write rt kind columns keyFields tsField none w rows
    let v' := TextWriter.write floatRepr rt kind columns keyFields tsField none v rows
    w'.1.dedupe = v'.1.dedupe ∧ FilesRel R w'.1.tree v'.1.texts ∧ w'.2 = v'.2 := by
  obtain ⟨hfiles, hcompleted⟩ := append_rel hR rt kind columns tsField
    (v.dedupe.filterNew keyFields rows).2.1 h
  simp only [StagingWriter.write, TextWriter.write, hdedupe]
  exact ⟨trivial, hfiles, by rw [hcompleted]⟩

end Refine

/-- The files of a text tree hold the lines of a tree, as they are printed. -/
def Printed (floatRepr : PyFloat → String) : StagingTree → StagedTexts → Prop :=
  FilesRel fun lines text => text = printLines floatRepr lines

theorem printed_extends (floatRepr : PyFloat → String) :
    Extends floatRepr fun lines text => text = printLines floatRepr lines where
  fresh := rfl
  append h ls := by rw [h, printLines_append]

end GridWitness.Server
