import GridWitness.Server.StagingLaws

namespace GridWitness.Server

open Library

def Kind.columns : Kind → List String
  | .electrical => electricalCsvColumns
  | .weather => weatherCsvColumns

def Kind.tsField : Kind → String
  | .electrical => "ts_utc"
  | .weather => "time"

def Kind.keyFields : Kind → List String
  | .electrical => StagingWriter.electricalKey
  | .weather => StagingWriter.weatherKey

theorem Row.get_zip_map {columns : List String} {f : String → Cell} {column : String} :
    Row.get (columns.zip (columns.map f)) column = if column ∈ columns then f column else .null := by
  induction columns with
  | nil => rfl
  | cons a columns ih =>
    by_cases h : column = a
    · subst h
      simp [Row.get]
    · have hne : (column == a) = false := by simpa using h
      simp only [Row.get, List.map_cons, List.zip_cons_cons, List.lookup_cons, hne] at ih ⊢
      simpa [h] using ih

/-- The value of a column on a data line of a file. -/
def Line.get (kind : Kind) (l : Line) (column : String) : Cell :=
  Row.get (kind.columns.zip l) column

def Line.key (kind : Kind) (l : Line) : List Cell := kind.keyFields.map (l.get kind)

def Kind.header (kind : Kind) : Line := StagingWriter.header kind.columns

def Kind.csvLine (kind : Kind) (r : Row) : Line := StagingWriter.csvLine kind.columns r

namespace Kind

theorem csvLine_get (kind : Kind) (r : Row) (column : String) :
    (kind.csvLine r).get kind column = if column ∈ kind.columns then r.get column else .null :=
  Row.get_zip_map

theorem csvLine_get_ne_null {kind : Kind} {r : Row} {column : String}
    (h : (kind.csvLine r).get kind column ≠ .null) : r.get column ≠ .null := by
  rw [csvLine_get] at h
  split at h
  · exact h
  · exact absurd rfl h

/-- A channel every row of a kind has a column for. -/
def someChannel : Kind → Channel
  | .electrical => .voltageV
  | .weather => .temp

/-- A projected row has no text in a channel column, unlike a header. -/
theorem csvLine_ne_header {kind : Kind} {r : Row}
    (h : ∀ text, r.get kind.someChannel.name ≠ .text text) : kind.csvLine r ≠ kind.header := by
  intro heq
  have hget : (kind.csvLine r).get kind kind.someChannel.name =
      .text kind.someChannel.name := by
    rw [heq]
    cases kind <;> rfl
  rw [csvLine_get, if_pos (by cases kind <;> decide)] at hget
  exact h _ hget

theorem csvLine_key (kind : Kind) (r : Row) :
    (kind.csvLine r).key kind = dedupeKey kind.keyFields r := by
  apply List.map_congr_left
  intro column hcol
  rw [csvLine_get, if_pos]
  revert column
  cases kind <;> decide

end Kind

namespace StagingTree

/-- Between two trees, files only grow: by headers and by data lines with a property. -/
def Appends (P : Kind → Line → Prop) (tree tree' : StagingTree) : Prop :=
  ∀ p, ∃ new, tree'.lines p = tree.lines p ++ new ∧
    ∀ l ∈ new, l = p.kind.header ∨ P p.kind l

variable {P Q : Kind → Line → Prop} {tree tree' tree'' : StagingTree}

theorem Appends.refl : Appends P tree tree := fun _ => ⟨[], by simp⟩

theorem Appends.trans (h : Appends P tree tree') (h' : Appends P tree' tree'') :
    Appends P tree tree'' := by
  intro p
  obtain ⟨new, hnew, hall⟩ := h p
  obtain ⟨new', hnew', hall'⟩ := h' p
  refine ⟨new ++ new', by rw [hnew', hnew, List.append_assoc], ?_⟩
  intro l hl
  exact (List.mem_append.mp hl).elim (hall l) (hall' l)

theorem Appends.mono (h : Appends P tree tree') (hPQ : ∀ kind l, P kind l → Q kind l) :
    Appends Q tree tree' := by
  intro p
  obtain ⟨new, hnew, hall⟩ := h p
  exact ⟨new, hnew, fun l hl => (hall l hl).imp_right (hPQ _ l)⟩

/-- A data line of some file of a kind. -/
def Has (tree : StagingTree) (kind : Kind) (l : Line) : Prop :=
  l ≠ kind.header ∧ ∃ p, p.kind = kind ∧ l ∈ tree.lines p

theorem Appends.has {kind : Kind} {l : Line} (h : Appends P tree tree') (hl : tree.Has kind l) :
    tree'.Has kind l := by
  obtain ⟨hne, p, hp, hmem⟩ := hl
  obtain ⟨new, hnew, -⟩ := h p
  exact ⟨hne, p, hp, by rw [hnew]; exact List.mem_append_left _ hmem⟩

theorem Appends.of_has {kind : Kind} {l : Line} (h : Appends P tree tree')
    (hl : tree'.Has kind l) : tree.Has kind l ∨ P kind l := by
  obtain ⟨hne, p, hp, hmem⟩ := hl
  obtain ⟨new, hnew, hall⟩ := h p
  rw [hnew] at hmem
  rcases List.mem_append.mp hmem with hmem | hmem
  · exact Or.inl ⟨hne, p, hp, hmem⟩
  · subst hp
    exact Or.inr ((hall l hmem).resolve_left hne)

theorem not_has_empty {kind : Kind} {l : Line} : ¬ Has ∅ kind l := by
  rintro ⟨-, p, -, h⟩
  simp [lines] at h

end StagingTree

namespace StagingWriter

variable {rt : Runtime} {kind : Kind}

/-- The writer of a kind. -/
def writeKind (rt : Runtime) (kind : Kind) (fault : Option AppendFault) (w : StagingWriter)
    (rows : List Row) : StagingWriter × Option (Nat × Nat) :=
  write rt kind kind.columns kind.keyFields kind.tsField fault w rows

theorem write_appends (rt : Runtime) (kind : Kind) (fault : Option AppendFault) (w : StagingWriter)
    (rows : List Row) :
    StagingTree.Appends
      (fun k l => k = kind ∧ ∃ r ∈ (w.dedupe.filterNew kind.keyFields rows).2.1,
        kind.csvLine r = l)
      w.tree (writeKind rt kind fault w rows).1.tree := by
  intro p
  obtain ⟨new, hnew, hall⟩ := append_grows rt kind kind.columns kind.tsField fault w.tree
    (w.dedupe.filterNew kind.keyFields rows).2.1 p
  refine ⟨new, hnew, fun l hl => ?_⟩
  obtain ⟨hkind, hl | ⟨r, hr, -, hl⟩⟩ := hall l hl
  · exact Or.inl (by rw [hl, hkind]; rfl)
  · exact Or.inr ⟨hkind, r, hr, hl⟩

/-- A completed write leaves a line for every row the dedupe window lets through. -/
theorem write_has {fault : Option AppendFault} {w : StagingWriter} {rows : List Row}
    (h : (writeKind rt kind fault w rows).2.isSome) {r : Row}
    (hr : r ∈ (w.dedupe.filterNew kind.keyFields rows).2.1)
    (hline : kind.csvLine r ≠ kind.header) :
    (writeKind rt kind fault w rows).1.tree.Has kind (kind.csvLine r) := by
  have hdone : (append rt kind kind.columns kind.tsField fault w.tree
      (w.dedupe.filterNew kind.keyFields rows).2.1).2 = true := by
    by_contra hfail
    simp [writeKind, write, hfail] at h
  obtain ⟨hpaths, hsame⟩ := append_completed hdone
  obtain ⟨p, hp⟩ := Option.isSome_iff_exists.mp (hpaths r hr)
  refine ⟨hline, p, path_kind hp, ?_⟩
  have hgroup : r ∈ (w.dedupe.filterNew kind.keyFields rows).2.1.filter
      (path rt kind kind.tsField · = some p) := by simp [hr, hp]
  simp only [writeKind, write, hsame]
  rw [(append_lines hpaths p).1, if_neg (List.ne_nil_of_mem hgroup)]
  apply List.mem_append_right
  have hrows : kind.csvLine r ∈ (List.filter (path rt kind kind.tsField · = some p)
      (w.dedupe.filterNew kind.keyFields rows).2.1).map (csvLine kind.columns) :=
    List.mem_map_of_mem hgroup
  simp only [output]
  split
  · exact hrows
  · exact List.mem_cons_of_mem _ hrows

end StagingWriter

end GridWitness.Server
