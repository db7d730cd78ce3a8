import GridWitness.Acquirer.Texts
import GridWitness.Library.Trace

namespace GridWitness.Acquirer

open Library Server

variable {host : Host} {floatRepr : PyFloat → String} {tree : StagingTree} {texts : StagedTexts}

/-- Both readers know a value by its text. -/
theorem cellText_print (host : Host) (c : Cell) :
    cellText host c = String.ofList (c.print host.floatRepr) := by
  cases c <;> simp [cellText, Cell.print]

/-- A line the reader takes: with fields, none of them over the limit. -/
def FitsLine (floatRepr : PyFloat → String) (l : Line) : Prop := l ≠ [] ∧ ∀ c ∈ l, c.Fits floatRepr

def Fitting (floatRepr : PyFloat → String) (tree : StagingTree) : Prop :=
  ∀ p, ∀ l ∈ tree.lines p, FitsLine floatRepr l

theorem printLines_eq (ls : List Line) :
    printLines floatRepr ls = Csv.writeRows excel (ls.map (List.map (Cell.print floatRepr))) := by
  simp only [printLines, Csv.writeRows, List.flatMap_map]
  rfl

theorem lengths_of_fits {ls : List Line} (h : ∀ l ∈ ls, FitsLine floatRepr l) :
    ∀ row ∈ ls.map (List.map (Cell.print floatRepr)), ∀ field ∈ row,
      field.length ≤ excel.fieldLimit := by
  intro row hrow field hfield
  obtain ⟨l, hl, rfl⟩ := List.mem_map.mp hrow
  obtain ⟨c, hc, rfl⟩ := List.mem_map.mp hfield
  exact (h l hl).2 c hc

theorem textRow_print (names l : Line) :
    textRow (names.map (Cell.print host.floatRepr)) (l.map (Cell.print host.floatRepr)) =
      dictRow host names l := by
  simp only [textRow, dictRow, List.map_map]
  congr 1
  · exact List.map_congr_left fun c _ => (cellText_print host c).symm
  · exact List.map_congr_left fun c _ => by rw [cellText_print]; rfl

/-- What `csv.DictWriter` printed, `csv.DictReader` reads back. -/
theorem textRows_printLines {ls : List Line} (h : ∀ l ∈ ls, FitsLine host.floatRepr l) :
    textRows (printLines host.floatRepr ls) = some (dictRows host ls) := by
  simp only [textRows, printLines_eq, Csv.read_writeRows (lengths_of_fits h), if_true]
  cases ls with
  | nil => rfl
  | cons names ls =>
    have hkeep : (ls.map (List.map (Cell.print host.floatRepr))).filter (· ≠ []) =
        ls.map (List.map (Cell.print host.floatRepr)) := by
      refine List.filter_eq_self.mpr fun row hrow => ?_
      obtain ⟨l, hl, rfl⟩ := List.mem_map.mp hrow
      simpa using (h l (List.mem_cons_of_mem _ hl)).1
    simp only [List.map_cons, hkeep, dictRows, List.map_map]
    exact congrArg some (List.map_congr_left fun l _ => textRow_print names l)

theorem textFiles_eq (h : Printed host.floatRepr tree texts) (kind : Kind) :
    textFiles texts kind = hourFiles tree kind := by
  rw [textFiles, hourFiles, h.keys]

theorem readTexts_eq (h : Printed host.floatRepr tree texts) (hfits : Fitting host.floatRepr tree)
    (kind : Kind) (since : Option String) :
    readTexts texts kind since = some (readStaging host tree kind since) := by
  -- every file is read as its lines are
  have hread : ∀ ps : List StagingPath, (ps.mapM fun p => textRows (texts.text p)) =
      some (ps.map fun p => dictRows host (tree.lines p)) := by
    intro ps
    induction ps with
    | nil => rfl
    | cons p ps ih =>
      rw [List.mapM_cons, ih, FilesRel.text (printed_extends _) h p, textRows_printLines (hfits p)]
      rfl
  rw [readTexts, textFiles_eq h, hread, Option.map_some, readStaging, List.flatMap_def]

theorem latestText_eq (h : Printed host.floatRepr tree texts) (kind : Kind) :
    latestText texts kind = latestHour tree kind := by
  rw [latestText, latestHour, textFiles_eq h]

/-- A run over the texts is the run over the lines, and it does not raise. -/
theorem runTexts_eq (h : Printed host.floatRepr tree texts) (hfits : Fitting host.floatRepr tree)
    (readable : Partition → Bool) (cutoff : Option Instant) (a : Landing) :
    runTexts host readable cutoff texts a =
      ((run host readable cutoff tree a).1, some (run host readable cutoff tree a).2) := by
  have hloop : ∀ kinds acc, coverTexts host readable cutoff texts a.state kinds acc =
      ((kinds.foldl (cover host readable cutoff tree) acc).1,
        some (kinds.foldl (cover host readable cutoff tree) acc).2) := by
    intro kinds
    induction kinds with
    | nil => exact fun acc => rfl
    | cons kind kinds ih =>
      rintro ⟨b, total⟩
      rw [coverTexts, readTexts_eq h hfits, latestText_eq h]
      exact ih _
  exact hloop _ _

theorem header_fits (floatRepr : PyFloat → String) (kind : Kind) : FitsLine floatRepr kind.header := by
  refine ⟨by cases kind <;> decide, fun c hc => ?_⟩
  obtain ⟨name, hname, rfl⟩ := List.mem_map.mp hc
  have hshort : ∀ name ∈ kind.columns, name.toList.length ≤ 131072 := by
    cases kind <;> decide
  exact hshort name hname

theorem csvLine_fits {floatRepr : PyFloat → String} {kind : Kind} {r : Row}
    (h : ∀ c ∈ kind.columns, (r.get c).Fits floatRepr) : FitsLine floatRepr (kind.csvLine r) := by
  refine ⟨?_, fun c hc => ?_⟩
  · rw [Kind.csvLine, StagingWriter.csvLine]
    cases kind <;> exact List.cons_ne_nil _ _
  · obtain ⟨column, hcolumn, rfl⟩ := List.mem_map.mp hc
    exact h column hcolumn

/-- A write of rows that fit leaves lines that fit. -/
theorem writeKind_fitting {rt : Runtime} {kind : Kind} {w : StagingWriter} {rows : List Row}
    (hfits : Fitting host.floatRepr w.tree)
    (hrows : ∀ r ∈ rows, ∀ c ∈ kind.columns, (r.get c).Fits host.floatRepr) :
    Fitting host.floatRepr (StagingWriter.writeKind rt kind none w rows).1.tree := by
  intro p l hl
  obtain ⟨new, hnew, hall⟩ := StagingWriter.write_appends rt kind none w rows p
  rw [hnew] at hl
  rcases List.mem_append.mp hl with hl | hl
  · exact hfits p l hl
  · rcases hall l hl with rfl | ⟨-, r, hr, rfl⟩
    · exact header_fits _ _
    · exact csvLine_fits (hrows r (Deduper.filterNew_unique_mem _ hr))

/-- The two systems agree: the files by their print, the rest as it is. -/
structure Agree (host : Host) (x : LineSystem) (y : TextSystem) : Prop where
  printed : Printed host.floatRepr x.writer.tree y.writer.texts
  fitting : Fitting host.floatRepr x.writer.tree
  dedupe : x.writer.dedupe = y.writer.dedupe
  landing : x.landing = y.landing
  calm : y.raised = false

/-- A row that can be told from its text: no value over the limit of a field. -/
def StagingEvent.Fits (floatRepr : PyFloat → String) : StagingEvent → Prop
  | .write kind rows => ∀ r ∈ rows, ∀ c ∈ kind.columns, (r.get c).Fits floatRepr
  | .run _ _ => True

theorem Agree.step {rt : Runtime} {x : LineSystem} {y : TextSystem} (h : Agree host x y)
    {e : StagingEvent} (he : e.Fits host.floatRepr) :
    Agree host (x.step rt host e) (y.step rt host e) := by
  cases e with
  | write kind rows =>
    obtain ⟨hdedupe, hprinted, -⟩ := write_rel (printed_extends _) rt kind kind.columns kind.keyFields
      kind.tsField rows h.dedupe h.printed
    exact ⟨hprinted, writeKind_fitting h.fitting he, hdedupe, h.landing, h.calm⟩
  | run readable cutoff =>
    have hrun := runTexts_eq h.printed h.fitting readable cutoff y.landing
    refine ⟨h.printed, h.fitting, h.dedupe, ?_, ?_⟩
    · simp only [LineSystem.step, TextSystem.step, hrun, h.landing]
    · simp only [TextSystem.step, hrun, h.calm, Option.isNone_some, Bool.or_self]

theorem Agree.run (rt : Runtime) {events : List StagingEvent}
    (hfits : ∀ e ∈ events, e.Fits host.floatRepr) {x : LineSystem} {y : TextSystem}
    (h : Agree host x y) :
    Agree host (events.foldl (LineSystem.step rt host) x) (events.foldl (TextSystem.step rt host) y) := by
  induction events generalizing x y with
  | nil => exact h
  | cons e events ih =>
    obtain ⟨he, hrest⟩ := List.forall_mem_cons.mp hfits
    exact ih hrest (h.step he)

/-- Over every interleaving of writes and runs the files of characters land what the files of lines
land, whatever the text of the values, and no run raises. -/
theorem texts_land (rt : Runtime) (host : Host) (events : List StagingEvent)
    (hfits : ∀ e ∈ events, e.Fits host.floatRepr) :
    let x := events.foldl (LineSystem.step rt host) {}
    let y := events.foldl (TextSystem.step rt host) {}
    y.landing = x.landing ∧ y.raised = false ∧
      ∀ kind since,
        readTexts y.writer.texts kind since = some (readStaging host x.writer.tree kind since) := by
  have hstart : Agree host {} {} :=
    ⟨.empty, fun p l hl => by simp [StagingTree.lines] at hl, rfl, rfl, rfl⟩
  have h := hstart.run rt hfits
  exact ⟨h.landing.symm, h.calm, readTexts_eq h.printed h.fitting⟩

/-- A device type that has to be quoted, over two lines of its file. -/
theorem texts_land_quoted :
    let events : List StagingEvent :=
      [.write .electrical
        [[("node_id", .text "node"), ("ts_utc", .text "2026-07-09T12:00:00Z"), ("phase", .text "1p"),
          ("voltage_v", .num (.fin 230)), ("device_type", .text "a \"b\",\r\nc")]],
        .run (fun _ => true) none]
    let x := events.foldl (LineSystem.step .ascii .july) {}
    let y := events.foldl (TextSystem.step .ascii .july) {}
    y.landing = x.landing ∧ y.raised = false ∧
      ∀ kind since,
        readTexts y.writer.texts kind since = some (readStaging .july x.writer.tree kind since) := by
  refine texts_land _ _ _ (List.forall_mem_cons.mpr ⟨?_, List.forall_mem_singleton.mpr trivial⟩)
  refine List.forall_mem_singleton.mpr ?_
  decide

end GridWitness.Acquirer
