import GridWitness.Acquirer.TextsLaws

namespace GridWitness.Acquirer

open Library Server

variable {host : Host} {floatRepr : PyFloat → String} {lines : List Line} {text : List Char}

/-- A value that is printed as it is, and leaves room for another one in its field. -/
def PlainCell (floatRepr : PyFloat → String) (c : Cell) : Prop :=
  Csv.Plain excel (c.print floatRepr) ∧ 2 * (c.print floatRepr).length ≤ excel.fieldLimit

instance (floatRepr : PyFloat → String) (c : Cell) : Decidable (PlainCell floatRepr c) :=
  inferInstanceAs (Decidable (_ ∧ _))

/-- A line that may be torn: all its values are plain. -/
structure Tearable (floatRepr : PyFloat → String) (l : Line) : Prop where
  wide : 2 ≤ l.length
  plain : ∀ c ∈ l, PlainCell floatRepr c

/-- A line that may follow a torn one: its first value is plain. -/
structure Follows (floatRepr : PyFloat → String) (l : Line) : Prop where
  fits : ∀ c ∈ l, c.Fits floatRepr
  first : ∃ c rest, l = c :: rest ∧ rest ≠ [] ∧ PlainCell floatRepr c

theorem PlainCell.fits {c : Cell} (h : PlainCell floatRepr c) : c.Fits floatRepr := by
  have hroom := h.2
  rw [Cell.Fits]
  omega

theorem Follows.fitsLine {l : Line} (h : Follows floatRepr l) : FitsLine floatRepr l := by
  obtain ⟨c, rest, rfl, -, -⟩ := h.first
  exact ⟨List.cons_ne_nil _ _, h.fits⟩

/-- The text of a file at a tear: whole lines, and the start of another one. -/
def Cut (floatRepr : PyFloat → String) (lines : List Line) (text : List Char) : Prop :=
  ∃ torn, text = printLines floatRepr lines ++ torn ∧
    (torn = [] ∨ ∃ l, Tearable floatRepr l ∧ torn <+: l.print floatRepr ∧
      torn.length < (l.print floatRepr).length)

/-- The text of a file that may have been torn once, behind its header. -/
def TornFile (floatRepr : PyFloat → String) (lines : List Line) (text : List Char) : Prop :=
  text = printLines floatRepr lines ∨
    ∃ before torn after, lines = before ++ after ∧ before ≠ [] ∧
      text = printLines floatRepr before ++ (torn ++ printLines floatRepr after) ∧
      ∃ l, Tearable floatRepr l ∧ torn <+: l.print floatRepr

theorem tornFile_extends (floatRepr : PyFloat → String) : Extends floatRepr (TornFile floatRepr) where
  fresh := Or.inl rfl
  append h ls := by
    rcases h with rfl | ⟨before, torn, after, rfl, hne, rfl, hl⟩
    · exact Or.inl (printLines_append _ _).symm
    · refine Or.inr ⟨before, torn, after ++ ls, List.append_assoc _ _ _, hne, ?_, hl⟩
      rw [printLines_append]
      simp only [List.append_assoc]

/-- What the reader makes of a torn file: at most one line is lost, and at most two rows are made up. -/
theorem read_tornFile {before after : List Line} {torn : List Char} {l : Line}
    (hbefore : ∀ l ∈ before, Follows floatRepr l) (hafter : ∀ l ∈ after, Follows floatRepr l)
    (hl : Tearable floatRepr l) (htorn : torn <+: l.print floatRepr) :
    ∃ between : List (List (List Char)), between.length ≤ 2 ∧
      Csv.read excel (printLines floatRepr before ++ (torn ++ printLines floatRepr after)) =
        ⟨before.map (List.map (Cell.print floatRepr)) ++
          (between ++ (after.drop 1).map (List.map (Cell.print floatRepr))), true⟩ := by
  have hrows := lengths_of_fits fun l hl => (hbefore l hl).fitsLine
  have hplain : ∀ field ∈ l.map (Cell.print floatRepr), Csv.Plain excel field := fun field hfield => by
    obtain ⟨c, hc, rfl⟩ := List.mem_map.mp hfield
    exact (hl.plain c hc).1
  have hhalf : ∀ field ∈ l.map (Cell.print floatRepr), 2 * field.length ≤ excel.fieldLimit :=
    fun field hfield => by
      obtain ⟨c, hc, rfl⟩ := List.mem_map.mp hfield
      exact (hl.plain c hc).2
  have hwide := hl.wide
  have hrow : l.map (Cell.print floatRepr) ≠ [] := fun h => by
    rw [List.map_eq_nil_iff.mp h] at hwide
    simp at hwide
  have honly : l.map (Cell.print floatRepr) ≠ [[]] := fun h => by
    have := congrArg List.length h
    simp at this
    omega
  rw [printLines_eq, printLines_eq]
  cases after with
  | nil =>
    obtain ⟨between, hbetween, hread⟩ := Csv.read_torn_end hrows hplain hrow honly
      (fun field hfield => by have := hhalf field hfield; omega) htorn
    refine ⟨between, by omega, ?_⟩
    simpa [Csv.writeRows] using hread
  | cons next after =>
    have hlater := lengths_of_fits fun l hl => (hafter l hl).fitsLine
    obtain ⟨-, c, rest, rfl, hrest, hc⟩ := hafter next List.mem_cons_self
    obtain ⟨between, hbetween, hread⟩ := Csv.read_torn hrows hplain hrow honly htorn hc.1
      (fun h => hrest (List.map_eq_nil_iff.mp h)) hlater
      (fun field hfield => by have := hhalf field hfield; have := hc.2; omega)
    refine ⟨between, ?_, hread⟩
    rcases hbetween with rfl | hone
    · exact le_rfl
    · omega

/-- The rows of a torn file next to those of its lines. -/
theorem textRows_tornFile (hlines : ∀ l ∈ lines, Follows host.floatRepr l)
    (h : TornFile host.floatRepr lines text) :
    ∃ front lost spoilt back, dictRows host lines = front ++ (lost ++ back) ∧ lost.length ≤ 1 ∧
      textRows text = some (front ++ (spoilt ++ back)) ∧ spoilt.length ≤ 2 := by
  rcases h with rfl | ⟨before, torn, after, rfl, hne, rfl, l, hl, htorn⟩
  · refine ⟨dictRows host lines, [], [], [], by simp, Nat.zero_le _, ?_, Nat.zero_le _⟩
    rw [textRows_printLines fun l hl => (hlines l hl).fitsLine, List.append_nil, List.append_nil]
  · obtain ⟨hbefore, hafter⟩ := List.forall_mem_append.mp hlines
    obtain ⟨between, hbetween, hread⟩ := read_tornFile hbefore hafter hl htorn
    cases before with
    | nil => exact absurd rfl hne
    | cons names before =>
      have hkeep : ∀ ls : List Line, (∀ l ∈ ls, Follows host.floatRepr l) →
          ((ls.map (List.map (Cell.print host.floatRepr))).filter (· ≠ [])).map
            (textRow (names.map (Cell.print host.floatRepr))) = ls.map (dictRow host names) := by
        intro ls hls
        rw [List.filter_eq_self.mpr fun row hrow => ?_, List.map_map]
        · exact List.map_congr_left fun l _ => textRow_print names l
        · obtain ⟨l, hl, rfl⟩ := List.mem_map.mp hrow
          simpa using (hls l hl).fitsLine.1
      refine ⟨before.map (dictRow host names), (after.take 1).map (dictRow host names),
        (between.filter (· ≠ [])).map (textRow (names.map (Cell.print host.floatRepr))),
        (after.drop 1).map (dictRow host names), ?_, ?_, ?_, ?_⟩
      · have hsplit : (after.take 1).map (dictRow host names) ++ (after.drop 1).map (dictRow host names) =
            after.map (dictRow host names) := by rw [← List.map_append, List.take_append_drop]
        rw [List.cons_append, dictRows, List.map_append, hsplit]
      · simp only [List.length_map, List.length_take]
        omega
      · simp only [textRows, hread, if_true, List.map_cons, List.cons_append, List.filter_append,
          List.map_append]
        rw [hkeep before (List.forall_mem_cons.mp hbefore).2,
          hkeep (after.drop 1) fun l hl => hafter l (List.mem_of_mem_drop hl)]
      · rw [List.length_map]
        exact (List.length_filter_le _ _).trans hbetween

/-- The first characters of a text of lines: whole lines, and the start of another one. -/
theorem take_printLines (floatRepr : PyFloat → String) (n : Nat) (ls : List Line) :
    ∃ k torn, (printLines floatRepr ls).take n = printLines floatRepr (ls.take k) ++ torn ∧
      (torn = [] ∨ ∃ l, ls[k]? = some l ∧ torn <+: l.print floatRepr ∧
        torn.length < (l.print floatRepr).length) := by
  induction ls generalizing n with
  | nil => exact ⟨0, [], by simp [printLines], Or.inl rfl⟩
  | cons l ls ih =>
    by_cases hn : n < (l.print floatRepr).length
    · refine ⟨0, (l.print floatRepr).take n, ?_, Or.inr ⟨l, rfl, List.take_prefix _ _, ?_⟩⟩
      · rw [printLines, List.flatMap_cons, List.take_append_of_le_length hn.le]
        rfl
      · rw [List.length_take]
        omega
    · obtain ⟨k, torn, htake, htorn⟩ := ih (n - (l.print floatRepr).length)
      refine ⟨k + 1, torn, ?_, ?_⟩
      · rw [printLines] at htake ⊢
        rw [List.flatMap_cons, List.take_append, List.take_of_length_le (not_lt.mp hn), htake,
          List.take_succ_cons, printLines, printLines, List.flatMap_cons, List.append_assoc]
      · simpa using htorn

/-- Every file there is holds at least its header. -/
def Solid (tree : StagingTree) : Prop := ∀ p ∈ tree, tree.lines p ≠ []

theorem Solid.appendLines {tree : StagingTree} (h : Solid tree) (p : StagingPath) {ls : List Line}
    (hls : tree.lines p ++ ls ≠ []) : Solid (tree.appendLines p ls) := by
  intro q hq
  rw [StagingTree.lines, StagingTree.appendLines, Table.lookup_replaceRow]
  split
  · exact hls
  · next hne =>
    refine h q ?_
    simpa [StagingTree.appendLines, Table.replaceRow, hne] using hq

theorem output_ne_nil {tree : StagingTree} (h : Solid tree) (columns : List String) (p : StagingPath)
    (group : List Row) : tree.lines p ++ StagingWriter.output columns tree p group ≠ [] := by
  rw [StagingWriter.output]
  split
  · next hp => exact List.append_ne_nil_of_left_ne_nil (h p hp) _
  · exact List.append_ne_nil_of_right_ne_nil _ (List.cons_ne_nil _ _)

theorem print_ne_nil (floatRepr : PyFloat → String) (l : Line) : l.print floatRepr ≠ [] := by
  simp [Line.print, Csv.writeRow]

section Tear

variable {rt : Runtime} {kind : Kind} {columns : List String} {tsField : String} {tree : StagingTree}
  {texts : StagedTexts} {written : Option Nat}

theorem Printed.cut (h : Printed floatRepr tree texts) : FilesRel (Cut floatRepr) tree texts where
  keys := h.keys
  rows p := by
    rcases h.lookup p with ⟨hlines, htext⟩ | ⟨ls, cs, hlines, htext, rfl⟩
    · rw [hlines, htext]
      exact .none
    · rw [hlines, htext]
      exact .some ⟨[], (List.append_nil _).symm, Or.inl rfl⟩

theorem FilesRel.torn (h : FilesRel (Cut floatRepr) tree texts) (hsolid : Solid tree) :
    FilesRel (TornFile floatRepr) tree texts where
  keys := h.keys
  rows p := by
    rcases h.lookup p with ⟨hlines, htext⟩ | ⟨ls, cs, hlines, htext, torn, rfl, htorn⟩
    · rw [hlines, htext]
      exact .none
    · have hne : ls ≠ [] := by
        have hfile := hsolid p (AList.lookup_isSome.mp (by rw [hlines]; rfl))
        rwa [StagingTree.lines, hlines] at hfile
      rw [hlines, htext]
      rcases htorn with rfl | ⟨l, hl, hprefix, -⟩
      · exact .some (Or.inl (List.append_nil _))
      · exact .some (Or.inr ⟨ls, torn, [], (List.append_nil _).symm, hne, by simp [printLines], l, hl,
          hprefix⟩)

/-- The start of an output ends within a line of it; a header is not cut. -/
theorem torn_output (h : Printed floatRepr tree texts) (hsolid : Solid tree) {p : StagingPath}
    {group : List Row} {n : Nat}
    (hrows : ∀ r ∈ group, Tearable floatRepr (StagingWriter.csvLine columns r))
    (hheader : p ∉ tree → (Line.print floatRepr (StagingWriter.header columns)).length ≤ n) :
    ∃ k, tree.lines p ++ (StagingWriter.output columns tree p group).take k ≠ [] ∧
      Cut floatRepr (tree.lines p ++ (StagingWriter.output columns tree p group).take k)
        (texts.text p ++ (TextWriter.output floatRepr columns texts p group).take n) := by
  obtain ⟨k, torn, htake, htorn⟩ :=
    take_printLines floatRepr n (StagingWriter.output columns tree p group)
  -- a new file holds its header, for the text goes beyond it
  have hnew : p ∉ tree → k ≠ 0 := by
    rintro hp rfl
    have hlong := hheader hp
    rw [StagingWriter.output, if_neg hp] at htake htorn
    have hheader := List.length_pos_iff.mpr
      (print_ne_nil floatRepr (StagingWriter.header columns))
    have hshort : torn.length < (Line.print floatRepr (StagingWriter.header columns)).length := by
      rcases htorn with rfl | ⟨l, hl, -, hshort⟩
      · exact hheader
      · obtain rfl := Option.some.inj hl
        exact hshort
    have hlength := congrArg List.length htake
    simp only [printLines, List.flatMap_cons, List.length_take, List.length_append, List.take_zero,
      List.flatMap_nil, List.length_nil] at hlength
    omega
  have hsome : tree.lines p ++ (StagingWriter.output columns tree p group).take k ≠ [] := by
    by_cases hp : p ∈ tree
    · exact List.append_ne_nil_of_left_ne_nil (hsolid p hp) _
    · obtain ⟨i, rfl⟩ := Nat.exists_eq_succ_of_ne_zero (hnew hp)
      rw [StagingWriter.output, if_neg hp]
      exact List.append_ne_nil_of_right_ne_nil _ (List.cons_ne_nil _ _)
  refine ⟨k, hsome, ?_⟩
  rw [FilesRel.text (printed_extends floatRepr) h, printLines_output h, htake]
  refine ⟨torn, by rw [printLines_append, List.append_assoc], ?_⟩
  rcases htorn with rfl | ⟨l, hl, hprefix, hshort⟩
  · exact Or.inl rfl
  have hline : ∀ i : Nat, (group.map (StagingWriter.csvLine columns))[i]? = some l →
      Tearable floatRepr l := by
    intro i hi
    obtain ⟨r, hr, rfl⟩ := List.mem_map.mp (List.mem_of_getElem? hi)
    exact hrows r hr
  refine Or.inr ⟨l, ?_, hprefix, hshort⟩
  by_cases hp : p ∈ tree
  · rw [StagingWriter.output, if_pos hp] at hl
    exact hline k hl
  · obtain ⟨i, rfl⟩ := Nat.exists_eq_succ_of_ne_zero (hnew hp)
    rw [StagingWriter.output, if_neg hp] at hl
    exact hline i hl

theorem appendBuckets_torn {file : Nat} {buckets : List (StagingPath × List Row)}
    (h : Printed floatRepr tree texts) (hsolid : Solid tree)
    (hrows : ∀ b ∈ buckets, ∀ r ∈ b.2, Tearable floatRepr (StagingWriter.csvLine columns r))
    (hheader : ∀ b ∈ buckets, b.1 ∉ tree → ∀ n ∈ written,
      (Line.print floatRepr (StagingWriter.header columns)).length ≤ n) :
    ∃ whole : Option Nat,
      let x := StagingWriter.appendBuckets columns tree (some ⟨file, whole⟩) buckets
      let y := TextWriter.appendBuckets floatRepr columns texts (some ⟨file, written⟩) buckets
      FilesRel (Cut floatRepr) x.1 y.1 ∧ Solid x.1 ∧ x.2 = y.2 := by
  induction buckets generalizing tree texts file with
  | nil =>
    refine ⟨none, ?_⟩
    cases file <;> exact ⟨Printed.cut h, hsolid, rfl⟩
  | cons b buckets ih =>
    obtain ⟨p, group⟩ := b
    obtain ⟨hgroup, hrows⟩ := List.forall_mem_cons.mp hrows
    obtain ⟨hfirst, hheader⟩ := List.forall_mem_cons.mp hheader
    cases file with
    | zero =>
      cases written with
      | none => exact ⟨none, Printed.cut h, hsolid, rfl⟩
      | some n =>
        obtain ⟨k, hsome, hfile⟩ := torn_output h hsolid hgroup fun hp => hfirst hp n rfl
        exact ⟨some k, (Printed.cut h).replaceRow hfile, hsolid.appendLines p hsome, rfl⟩
    | succ file =>
      have hprinted := FilesRel.append (printed_extends floatRepr) h p
        (StagingWriter.output columns tree p group)
      rw [← printLines_output h] at hprinted
      refine ih hprinted (hsolid.appendLines p (output_ne_nil hsolid columns p group)) hrows ?_
      intro b hb hnew
      refine hheader b hb fun hold => hnew ?_
      simp [StagingTree.appendLines, Table.replaceRow, hold]

theorem appendBuckets_solid (hsolid : Solid tree) (buckets : List (StagingPath × List Row)) :
    Solid (StagingWriter.appendBuckets columns tree none buckets).1 := by
  induction buckets generalizing tree with
  | nil => exact hsolid
  | cons b buckets ih => exact ih (hsolid.appendLines b.1 (output_ne_nil hsolid columns b.1 b.2))

theorem writeKind_solid {w : StagingWriter} (hsolid : Solid w.tree) (rows : List Row) :
    Solid (StagingWriter.writeKind rt kind none w rows).1.tree := by
  simp only [StagingWriter.writeKind, StagingWriter.write, StagingWriter.append]
  cases StagingWriter.paths rt kind kind.tsField (w.dedupe.filterNew kind.keyFields rows).2.1 with
  | none => exact hsolid
  | some located => exact appendBuckets_solid hsolid _

/-- The rows of the files of a batch are rows of the batch. -/
theorem mem_buckets {rows : List Row} {located : List (StagingPath × Row)}
    (hlocated : StagingWriter.paths rt kind tsField rows = some located) {b : StagingPath × List Row}
    (hb : b ∈ Bucket.mapGroups (·.map (·.2)) (Bucket.bucket (·.1) located)) :
    (∀ r ∈ b.2, r ∈ rows) ∧ ∃ r ∈ rows, StagingWriter.path rt kind tsField r = some b.1 := by
  obtain ⟨hrows, hpaths⟩ := StagingWriter.paths_eq_some hlocated
  have hkey := List.mem_map_of_mem (f := Prod.fst) hb
  rw [← Bucket.keys, Bucket.keys_mapGroups, Bucket.mem_keys_bucket] at hkey
  obtain ⟨x, hx, hpath⟩ := hkey
  refine ⟨fun r hr => ?_, x.2, hrows ▸ List.mem_map_of_mem hx, by rw [hpaths x hx, hpath]⟩
  obtain ⟨⟨q, f⟩, hf, rfl⟩ := List.mem_map.mp hb
  obtain ⟨y, hy, rfl⟩ := List.mem_map.mp hr
  rw [Bucket.eq_filter_of_mem_bucket _ hf] at hy
  exact hrows ▸ List.mem_map_of_mem (List.mem_filter.mp hy).1

/-- What a torn append asks of its rows: plain values, and a header that is whole. -/
structure TearSafe (floatRepr : PyFloat → String) (rt : Runtime) (kind : Kind) (tree : StagingTree)
    (tear : TornWrite) (rows : List Row) : Prop where
  plain : ∀ r ∈ rows, ∀ c ∈ kind.columns, PlainCell floatRepr (r.get c)
  header : ∀ r ∈ rows, ∀ p, StagingWriter.path rt kind kind.tsField r = some p → p ∉ tree →
    ∀ n ∈ tear.written, (Line.print floatRepr kind.header).length ≤ n

theorem append_torn {rows : List Row} {tear : TornWrite} (h : Printed floatRepr tree texts)
    (hsolid : Solid tree) (hsafe : TearSafe floatRepr rt kind tree tear rows) :
    ∃ whole : Option Nat,
      let x := StagingWriter.append rt kind kind.columns kind.tsField (some ⟨tear.file, whole⟩) tree rows
      let y := TextWriter.append floatRepr rt kind kind.columns kind.tsField (some tear) texts rows
      FilesRel (Cut floatRepr) x.1 y.1 ∧ Solid x.1 ∧ x.2 = y.2 := by
  obtain ⟨file, written⟩ := tear
  simp only [StagingWriter.append, TextWriter.append]
  cases hlocated : StagingWriter.paths rt kind kind.tsField rows with
  | none => exact ⟨none, Printed.cut h, hsolid, rfl⟩
  | some located =>
    refine appendBuckets_torn h hsolid (fun b hb r hr => ⟨?_, fun c hc => ?_⟩) fun b hb hfresh => ?_
    · rw [StagingWriter.csvLine, List.length_map]
      cases kind <;> decide
    · obtain ⟨column, hcolumn, rfl⟩ := List.mem_map.mp hc
      exact hsafe.plain r ((mem_buckets hlocated hb).1 r hr) column hcolumn
    · obtain ⟨-, r, hr, hpath⟩ := mem_buckets hlocated hb
      exact hsafe.header r hr b.1 hpath hfresh

/-- A torn call of a writer leaves whole lines and at most the start of one more in each file. -/
theorem write_torn {w : StagingWriter} {v : TextWriter} {rows : List Row} {tear : TornWrite}
    (hdedupe : w.dedupe = v.dedupe) (h : Printed floatRepr w.tree v.texts) (hsolid : Solid w.tree)
    (hsafe : TearSafe floatRepr rt kind w.tree tear rows) :
    ∃ whole : Option Nat,
      let x := StagingWriter.writeKind rt kind (some ⟨tear.file, whole⟩) w rows
      let y := TextWriter.write floatRepr rt kind kind.columns kind.keyFields kind.tsField (some tear)
        v rows
      x.1.dedupe = y.1.dedupe ∧ FilesRel (Cut floatRepr) x.1.tree y.1.texts ∧ Solid x.1.tree ∧
        x.2 = y.2 := by
  have hnew : ∀ r ∈ (v.dedupe.filterNew kind.keyFields rows).2.1, r ∈ rows := fun r hr =>
    Deduper.filterNew_unique_mem _ hr
  have hnewSafe : TearSafe floatRepr rt kind w.tree tear (v.dedupe.filterNew kind.keyFields rows).2.1 :=
    ⟨fun r hr => hsafe.plain r (hnew r hr), fun r hr => hsafe.header r (hnew r hr)⟩
  obtain ⟨whole, hfiles, hsolid, hcompleted⟩ := append_torn h hsolid hnewSafe
  refine ⟨whole, ?_⟩
  simp only [StagingWriter.writeKind, StagingWriter.write, TextWriter.write, hdedupe]
  exact ⟨trivial, hfiles, hsolid, by rw [hcompleted]⟩

end Tear

section Run

variable {rt : Runtime}

/-- What happens to a writer: a call, or a new process with an empty window. -/
inductive WriterStep
  | write (kind : Kind) (rows : List Row)
  | restart

def WriterStep.onLines (rt : Runtime) (w : StagingWriter) : WriterStep → StagingWriter
  | .write kind rows => (StagingWriter.writeKind rt kind none w rows).1
  | .restart => { w with dedupe := StagingWriter.freshDeduper }

def WriterStep.onTexts (floatRepr : PyFloat → String) (rt : Runtime) (v : TextWriter) :
    WriterStep → TextWriter
  | .write kind rows =>
    (TextWriter.write floatRepr rt kind kind.columns kind.keyFields kind.tsField none v rows).1
  | .restart => { v with dedupe := StagingWriter.freshDeduper }

/-- A row that can be told from its text, with a plain id. -/
structure RowFollows (floatRepr : PyFloat → String) (kind : Kind) (r : Row) : Prop where
  fits : ∀ c ∈ kind.columns, (r.get c).Fits floatRepr
  node : PlainCell floatRepr (r.get "node_id")

instance (floatRepr : PyFloat → String) (kind : Kind) (r : Row) :
    Decidable (RowFollows floatRepr kind r) :=
  decidable_of_iff ((∀ c ∈ kind.columns, (r.get c).Fits floatRepr) ∧
    PlainCell floatRepr (r.get "node_id")) ⟨fun h => ⟨h.1, h.2⟩, fun h => ⟨h.fits, h.node⟩⟩

theorem header_follows (floatRepr : PyFloat → String) (kind : Kind) : Follows floatRepr kind.header := by
  have hplain : PlainCell floatRepr (.text "node_id") := by
    refine ⟨?_, ?_⟩
    · simp only [Cell.print]
      decide
    · simp only [Cell.print]
      decide
  refine ⟨(header_fits floatRepr kind).2, ?_⟩
  cases kind <;> exact ⟨_, _, rfl, List.cons_ne_nil _ _, hplain⟩

theorem csvLine_follows {kind : Kind} {r : Row} (h : RowFollows floatRepr kind r) :
    Follows floatRepr (kind.csvLine r) := by
  refine ⟨(csvLine_fits h.fits).2, ?_⟩
  cases kind <;> exact ⟨_, _, rfl, List.cons_ne_nil _ _, h.node⟩

theorem writeKind_follows {kind : Kind} {fault : Option AppendFault} {w : StagingWriter}
    {rows : List Row} (hlines : ∀ p, ∀ l ∈ w.tree.lines p, Follows floatRepr l)
    (hrows : ∀ r ∈ rows, RowFollows floatRepr kind r) :
    ∀ p, ∀ l ∈ (StagingWriter.writeKind rt kind fault w rows).1.tree.lines p, Follows floatRepr l := by
  intro p l hl
  obtain ⟨new, hnew, hall⟩ := StagingWriter.write_appends rt kind fault w rows p
  rw [hnew] at hl
  rcases List.mem_append.mp hl with hl | hl
  · exact hlines p l hl
  · rcases hall l hl with rfl | ⟨-, r, hr, rfl⟩
    · exact header_follows _ _
    · exact csvLine_follows (hrows r (Deduper.filterNew_unique_mem _ hr))

/-- The rows of an event may follow a torn line. -/
def WriterStep.Follows (floatRepr : PyFloat → String) : WriterStep → Prop
  | .write kind rows => ∀ r ∈ rows, RowFollows floatRepr kind r
  | .restart => True

theorem TearSafe.rowFollows {kind : Kind} {tree : StagingTree} {tear : TornWrite} {rows : List Row}
    (h : TearSafe floatRepr rt kind tree tear rows) : ∀ r ∈ rows, RowFollows floatRepr kind r :=
  fun r hr => ⟨fun c hc => (h.plain r hr c hc).fits, h.plain r hr _ (by cases kind <;> decide)⟩

/-- Two writers agree: the windows are equal, the files are related, and every line may follow a torn
one. -/
structure Related (floatRepr : PyFloat → String) (R : List Line → List Char → Prop)
    (w : StagingWriter) (v : TextWriter) : Prop where
  dedupe : w.dedupe = v.dedupe
  files : FilesRel R w.tree v.texts
  solid : Solid w.tree
  follows : ∀ p, ∀ l ∈ w.tree.lines p, Follows floatRepr l

theorem Related.step {R : List Line → List Char → Prop} (hR : Extends floatRepr R)
    {w : StagingWriter} {v : TextWriter} (h : Related floatRepr R w v) {e : WriterStep}
    (he : e.Follows floatRepr) : Related floatRepr R (e.onLines rt w) (e.onTexts floatRepr rt v) := by
  cases e with
  | write kind rows =>
    obtain ⟨hdedupe, hfiles, -⟩ := write_rel hR rt kind kind.columns kind.keyFields kind.tsField rows
      h.dedupe h.files
    exact ⟨hdedupe, hfiles, writeKind_solid h.solid rows, writeKind_follows h.follows he⟩
  | restart => exact ⟨rfl, h.files, h.solid, h.follows⟩

theorem Related.run (rt : Runtime) {R : List Line → List Char → Prop} (hR : Extends floatRepr R)
    {events : List WriterStep} (hevents : ∀ e ∈ events, e.Follows floatRepr) {w : StagingWriter}
    {v : TextWriter} (h : Related floatRepr R w v) :
    Related floatRepr R (events.foldl (WriterStep.onLines rt) w)
      (events.foldl (WriterStep.onTexts floatRepr rt) v) := by
  induction events generalizing w v with
  | nil => exact h
  | cons e events ih =>
    obtain ⟨he, hrest⟩ := List.forall_mem_cons.mp hevents
    exact ih hrest (h.step hR he)

theorem related_start (floatRepr : PyFloat → String) :
    Related floatRepr (fun lines text => text = printLines floatRepr lines)
      ⟨∅, StagingWriter.freshDeduper⟩ ⟨∅, StagingWriter.freshDeduper⟩ where
  dedupe := rfl
  files := .empty
  solid p hp := by simp at hp
  follows p l hl := by simp [StagingTree.lines] at hl

theorem Related.tear {w : StagingWriter} {v : TextWriter}
    (h : Related floatRepr (fun lines text => text = printLines floatRepr lines) w v) {kind : Kind}
    {rows : List Row} {tear : TornWrite} (hsafe : TearSafe floatRepr rt kind w.tree tear rows) :
    ∃ whole : Option Nat,
      let w' := (StagingWriter.writeKind rt kind (some ⟨tear.file, whole⟩) w rows).1
      let v' := (TextWriter.write floatRepr rt kind kind.columns kind.keyFields kind.tsField (some tear)
        v rows).1
      FilesRel (Cut floatRepr) w'.tree v'.texts ∧ Related floatRepr (TornFile floatRepr) w' v' := by
  obtain ⟨whole, hdedupe, hfiles, hsolid, -⟩ := write_torn h.dedupe h.files h.solid hsafe
  exact ⟨whole, hfiles, hdedupe, FilesRel.torn hfiles hsolid, hsolid,
    writeKind_follows h.follows hsafe.rowFollows⟩

end Run

end GridWitness.Acquirer
