import GridWitness.Survey.CrashLaws
import GridWitness.Survey.ParsersLaws

namespace GridWitness.Survey

open Library Server

/-- A row with a value, the filter of the long format. -/
def ParsedRow.Filled (row : ParsedRow) : Prop := row.voltageV.isSome ∨ row.frequencyHz.isSome

/-- What the row model and the staging writer ask of a parsed row. -/
structure ParsedRow.Accepted (rt : Runtime) (row : ParsedRow) : Prop where
  validated : row.validate.isSome
  dated : (rt.parseIso row.tsUtc).isSome

theorem ParsedRow.validate_isSome (row : ParsedRow) :
    row.validate.isSome ↔ (phaseOf row.phase).isSome ∧ saneFreq row.frequencyHz := by
  simp only [validate]
  cases phaseOf row.phase with
  | none => simp
  | some phase =>
    by_cases hsane : saneFreq row.frequencyHz = true
    · simp [hsane]
    · simp [hsane]

section Emitted

variable {host : ParserHost}

theorem inFreqBand_sane (v : Option PyFloat) : saneFreq (inFreqBand v) := by
  cases v with
  | none => rfl
  | some v =>
    by_cases hv : v.between 40 70 = true
    · simp [inFreqBand, saneFreq, Option.filter, hv]
    · simp [inFreqBand, saneFreq, Option.filter, hv]

/-- A record of the long format has a value in the band of its channel. -/
def InBand (channel : String) (val : PyFloat) : Prop :=
  contains channel "freq" ∧ val.between 40 70 ∨ contains channel "volt" ∧ val.between 40 520

/-- The record gives the row of a timestamp and a phase one of its values. -/
structure Contributes (host : ParserHost) (rec : Record) (key : String × String) : Prop where
  dated : toIsoZ host (cell (longRecord host rec) "timestamp") = some key.1
  phased : longPhase host (longRecord host rec) = key.2
  valued : ∃ val, num host (cell (longRecord host rec) "value") = some val ∧
    InBand (longChannel host (longRecord host rec)) val

theorem longUpdate_key (channel : String) (val : PyFloat) (row : ParsedRow) :
    (longUpdate channel val row).tsUtc = row.tsUtc ∧ (longUpdate channel val row).phase = row.phase := by
  simp only [longUpdate]
  split
  · exact ⟨rfl, rfl⟩
  · split <;> exact ⟨rfl, rfl⟩

theorem longUpdate_sane (channel : String) (val : PyFloat) {row : ParsedRow}
    (h : saneFreq row.frequencyHz) : saneFreq (longUpdate channel val row).frequencyHz := by
  simp only [longUpdate]
  split
  · next hfreq => exact hfreq.2
  · split <;> exact h

/-- A value in its band stays in its row, one outside changes nothing. -/
theorem longUpdate_filled (channel : String) (val : PyFloat) (row : ParsedRow) :
    (longUpdate channel val row).Filled ↔ row.Filled ∨ InBand channel val := by
  simp only [longUpdate, InBand, ParsedRow.Filled]
  split
  · next hfreq => simp [hfreq]
  · next hfreq =>
    split
    · next hvolt => simp [hvolt]
    · next hvolt => simp only [hfreq, hvolt, or_false]

/-- The rows grouped from some records: each under its key, filled where a record contributes. -/
structure Grouped (host : ParserHost) (records : List Record)
    (grouped : Dict (String × String) ParsedRow) : Prop where
  nodup : grouped.keys.Nodup
  keyed : ∀ key row, grouped.get key = some row → (row.tsUtc, row.phase) = key
  sane : ∀ key row, grouped.get key = some row → saneFreq row.frequencyHz
  filled : ∀ key, (∃ row, grouped.get key = some row ∧ row.Filled) ↔
    ∃ rec ∈ records, Contributes host rec key

theorem Grouped.nil : Grouped host [] [] where
  nodup := List.nodup_nil
  keyed _ _ h := by cases h
  sane _ _ h := by cases h
  filled _ := by simp [Dict.get]

/-- A record that reads neither as a time nor as a number contributes nothing. -/
theorem Grouped.skip {records : List Record} {grouped : Dict (String × String) ParsedRow} {rec : Record}
    (h : Grouped host records grouped) (hrec : ∀ key, ¬Contributes host rec key) :
    Grouped host (records ++ [rec]) grouped where
  nodup := h.nodup
  keyed := h.keyed
  sane := h.sane
  filled key := by
    rw [h.filled key]
    simp [or_and_right, exists_or, hrec key]

/-- A record of a reading contributes to the row of its moment and its phase, if it is in band. -/
theorem contributes_iff {rec : Record} {iso : String} {val : PyFloat}
    (hiso : toIsoZ host (cell (longRecord host rec) "timestamp") = some iso)
    (hval : num host (cell (longRecord host rec) "value") = some val) {key : String × String} :
    Contributes host rec key ↔
      key = (iso, longPhase host (longRecord host rec)) ∧
        InBand (longChannel host (longRecord host rec)) val := by
  constructor
  · rintro ⟨hdated, hphased, val', hval', hband⟩
    obtain rfl : val = val' := Option.some.inj (hval.symm.trans hval')
    exact ⟨Prod.ext (Option.some.inj (hdated.symm.trans hiso)) hphased.symm, hband⟩
  · rintro ⟨rfl, hband⟩
    exact ⟨hiso, rfl, val, hval, hband⟩

theorem Grouped.step {records : List Record} {grouped : Dict (String × String) ParsedRow}
    (h : Grouped host records grouped) (rec : Record) :
    Grouped host (records ++ [rec]) (longStep host grouped rec) := by
  simp only [longStep]
  split
  · next iso val hiso hval =>
    let r := longRecord host rec
    let row := (grouped.get (iso, longPhase host r)).getD ⟨iso, longPhase host r, none, none⟩
    have hrow : (row.tsUtc, row.phase) = (iso, longPhase host r) ∧ saneFreq row.frequencyHz := by
      simp only [row]
      cases hget : grouped.get (iso, longPhase host r) with
      | none => exact ⟨rfl, rfl⟩
      | some row => exact ⟨h.keyed _ row hget, h.sane _ row hget⟩
    have hfilled : row.Filled ↔ ∃ row, grouped.get (iso, longPhase host r) = some row ∧ row.Filled := by
      simp only [row]
      cases hget : grouped.get (iso, longPhase host r) with
      | none => simp [ParsedRow.Filled]
      | some row => simp
    refine ⟨Dict.nodup_alter h.nodup _ _, fun key out hget => ?_, fun key out hget => ?_, fun key => ?_⟩
    · rw [Dict.get_alter] at hget
      split at hget
      · next hkey =>
        cases hget
        rw [(longUpdate_key _ _ _).1, (longUpdate_key _ _ _).2, hkey]
        exact hrow.1
      · exact h.keyed key out hget
    · rw [Dict.get_alter] at hget
      split at hget
      · cases hget
        exact longUpdate_sane _ _ hrow.2
      · exact h.sane key out hget
    · have hcontributes : Contributes host rec key ↔
          key = (iso, longPhase host r) ∧ InBand (longChannel host r) val := contributes_iff hiso hval
      rw [Dict.get_alter]
      simp only [List.mem_append, List.mem_singleton, or_and_right, exists_or, exists_eq_left,
        hcontributes, ← h.filled key]
      by_cases hkey : key = (iso, longPhase host r)
      · rw [if_pos hkey, hkey]
        simp only [Option.some.injEq, exists_eq_left', true_and]
        rw [longUpdate_filled, ← hfilled]
      · rw [if_neg hkey]
        simp [hkey]
  · next hnone =>
    refine h.skip fun key hkey => ?_
    obtain ⟨val, hval, -⟩ := hkey.valued
    exact hnone _ _ hkey.dated hval

theorem Grouped.run {done : List Record} {grouped : Dict (String × String) ParsedRow}
    (h : Grouped host done grouped) (records : List Record) :
    Grouped host (done ++ records) (records.foldl (longStep host) grouped) := by
  induction records generalizing done grouped with
  | nil => simpa using h
  | cons rec records ih => simpa using ih (h.step rec)

/-- The rows of the long format are the keys some record contributes to. -/
theorem mem_rowsFromLong {records : List Record} {row : ParsedRow}
    (h : row ∈ (rowsFromLong host records).rows) :
    saneFreq row.frequencyHz ∧ ∃ rec ∈ records, Contributes host rec (row.tsUtc, row.phase) := by
  have hgrouped : Grouped host records _ := Grouped.nil.run records
  obtain ⟨hmem, hfilled⟩ := List.mem_filter.mp h
  obtain ⟨⟨key, row⟩, hitem, rfl⟩ := List.mem_map.mp hmem
  have hget := Dict.get_of_mem hgrouped.nodup hitem
  refine ⟨hgrouped.sane key row hget, ?_⟩
  rw [hgrouped.keyed key row hget]
  exact (hgrouped.filled key).mp ⟨row, hget, by simpa [ParsedRow.Filled] using hfilled⟩

theorem rowsFromLong_covers {records : List Record} {rec : Record} (hrec : rec ∈ records)
    {key : String × String} (h : Contributes host rec key) :
    ∃ row ∈ (rowsFromLong host records).rows, (row.tsUtc, row.phase) = key := by
  have hgrouped : Grouped host records _ := Grouped.nil.run records
  obtain ⟨row, hget, hfilled⟩ := (hgrouped.filled key).mpr ⟨rec, hrec, h⟩
  refine ⟨row, List.mem_filter.mpr ⟨?_, ?_⟩, hgrouped.keyed key row hget⟩
  · exact List.mem_map.mpr ⟨_, Dict.mem_of_get hget, rfl⟩
  · simpa [ParsedRow.Filled] using hfilled

/-- Every phase of a voltage column is one of the model. -/
theorem phaseFor_labelled (header : String) : (phaseOf (phaseFor host header)).isSome := by
  have hlabels : ∀ hint ∈ phaseHints, (phaseOf hint.2).isSome := by decide
  simp only [phaseFor]
  split
  · next label hfound => exact hlabels _ (List.mem_of_find?_eq_some hfound)
  · decide

/-- A row of the wide format has a phase of the model, a sane frequency and the time of its record. -/
structure WideRow (host : ParserHost) (row : ParsedRow) : Prop where
  labelled : (phaseOf row.phase).isSome
  sane : saneFreq row.frequencyHz
  dated : ∃ value, toIsoZ host value = some row.tsUtc

theorem voltRows_wide {value : Option String} {iso : String} (hiso : toIsoZ host value = some iso)
    (rec : Record) {cols : List (String × String)} (hcols : ∀ x ∈ cols, (phaseOf x.2).isSome)
    {freq : Option PyFloat} (hfreq : saneFreq freq) {row : ParsedRow}
    (h : row ∈ voltRows host iso rec freq cols) : WideRow host row := by
  induction cols generalizing freq with
  | nil => cases h
  | cons x cols ih =>
    have hlater : row ∈ voltRows host iso rec none cols → WideRow host row :=
      ih (fun y hy => hcols y (List.mem_cons_of_mem _ hy)) rfl
    simp only [voltRows] at h
    split at h
    · exact hlater h
    · rcases List.mem_cons.mp h with rfl | h
      · exact ⟨hcols x List.mem_cons_self, hfreq, value, hiso⟩
      · exact hlater h

theorem recordRows_wide {tsCol : String} {columns : Columns} {rec : Record}
    (hcols : ∀ x ∈ columns.voltCols, (phaseOf x.2).isSome) {row : ParsedRow}
    (h : row ∈ recordRows host tsCol columns rec) : WideRow host row := by
  have hfreq : saneFreq (columns.freqCol.bind fun col => inFreqBand (num host (cell rec col))) := by
    cases columns.freqCol with
    | none => rfl
    | some col => exact inFreqBand_sane _
  simp only [recordRows] at h
  split at h
  · cases h
  · next iso hiso =>
    split at h
    · rw [Option.mem_toList] at h
      obtain ⟨f, hf, rfl⟩ := Option.map_eq_some_iff.mp h
      have hlabelled : (phaseOf "1p").isSome := by decide
      exact ⟨hlabelled, hf ▸ hfreq, _, hiso⟩
    · exact voltRows_wide hiso rec hcols hfreq h

theorem mem_rowsFromRecords {records : List Record} {headers : List String} {row : ParsedRow}
    (h : row ∈ (rowsFromRecords host records headers).rows) : WideRow host row := by
  simp only [rowsFromRecords] at h
  split at h
  · cases h
  · split at h
    · cases h
    · obtain ⟨rows, hrows, hrow⟩ := List.mem_flatten.mp h
      obtain ⟨rec, -, rfl⟩ := List.mem_map.mp hrows
      refine recordRows_wide (fun x hx => ?_) hrow
      obtain ⟨header, -, rfl⟩ := List.mem_map.mp hx
      exact phaseFor_labelled header

/-- The records of a file that are read in the long format. -/
def longRecords (host : ParserHost) (converter : Option Converter) (name : String) (content : Content) :
    List Record :=
  if host.rt.lower (pathSuffix name) ∈ [".pqd", ".pqdif"] then
    match converter with
    | none => []
    | some converter =>
      match converter.run content with
      | .converted stdout =>
        match host.reader "," (host.splitlines stdout) with
        | [] => []
        | fieldnames :: rows => dictRows fieldnames rows
      | _ => []
  else
    let lines := host.splitlines (host.readText content)
    if lines = [] then []
    else
      match host.reader ((host.sniff ("\n".intercalate (lines.take 20))).getD ",") lines with
      | [] => []
      | fieldnames :: rows => if isLong host fieldnames then dictRows fieldnames rows else []

/-- The rows of a file, by the format they are read in. -/
inductive Emitted (host : ParserHost) : List ParsedRow → List Record → Prop
  | long (records : List Record) : Emitted host (rowsFromLong host records).rows records
  | wide (records : List Record) (headers : List String) :
    Emitted host (rowsFromRecords host records headers).rows []

theorem Emitted.none : Emitted host [] [] := .long []

theorem parseFile_emitted (converter : Option Converter) (name : String) (content : Content) :
    Emitted host (host.parseFile converter name content).rows
      (longRecords host converter name content) := by
  simp only [ParserHost.parseFile, longRecords]
  split
  · simp only [parsePqdif]
    cases converter with
    | none => exact .none
    | some converter =>
      simp only
      cases converter.run content with
      | converted stdout =>
        simp only
        cases host.reader "," (host.splitlines stdout) with
        | nil => exact .none
        | cons fieldnames rows => exact .long _
      | _ => exact .none
  · simp only [parseCsv]
    split
    · exact .none
    · generalize host.reader _ _ = lines
      cases lines with
      | nil => exact .none
      | cons fieldnames rows =>
        cases fieldnames with
        | nil => exact .none
        | cons field fieldnames =>
          simp only
          split
          · exact .long _
          · exact .wide _ _

/-- A record of the long format that contributes a value under a phase the row model does not know. -/
def Unlabelled (host : ParserHost) (rec : Record) : Prop :=
  ∃ key, Contributes host rec key ∧ phaseOf key.2 = none

section Accepted

variable {rows : List ParsedRow} {records : List Record}

/-- The writer parses back every time a parser gives a row. -/
theorem Emitted.dated (h : Emitted host rows records)
    (hdates : ∀ value dt, host.toDatetime value = some dt → (host.rt.parseIso (isoZ dt)).isSome) :
    ∀ pr ∈ rows, (host.rt.parseIso pr.tsUtc).isSome := by
  have hdated : ∀ {value iso}, toIsoZ host value = some iso → (host.rt.parseIso iso).isSome := by
    intro value iso hiso
    obtain ⟨dt, hdt, rfl⟩ := Option.map_eq_some_iff.mp hiso
    exact hdates value dt hdt
  intro pr hpr
  cases h with
  | wide records headers =>
    obtain ⟨value, hiso⟩ := (mem_rowsFromRecords hpr).dated
    exact hdated hiso
  | long records =>
    obtain ⟨-, rec, -, hkey⟩ := mem_rowsFromLong hpr
    exact hdated hkey.dated

/-- The rows of a file are accepted exactly where no record of it is unlabelled. -/
theorem Emitted.accepted_iff (h : Emitted host rows records)
    (hdates : ∀ value dt, host.toDatetime value = some dt → (host.rt.parseIso (isoZ dt)).isSome) :
    (∀ pr ∈ rows, pr.Accepted host.rt) ↔ ∀ rec ∈ records, ¬Unlabelled host rec := by
  have hdated := h.dated hdates
  cases h with
  | wide records headers =>
    refine iff_of_true (fun pr hpr => ?_) fun _ hrec => absurd hrec List.not_mem_nil
    have hwide := mem_rowsFromRecords hpr
    exact ⟨pr.validate_isSome.mpr ⟨hwide.labelled, hwide.sane⟩, hdated pr hpr⟩
  | long records =>
    constructor
    · rintro haccepted rec hrec ⟨key, hkey, hnone⟩
      obtain ⟨row, hrow, rfl⟩ := rowsFromLong_covers hrec hkey
      have hsome := (row.validate_isSome.mp (haccepted row hrow).validated).1
      rw [hnone] at hsome
      cases hsome
    · intro hlabelled pr hpr
      obtain ⟨hsane, rec, hrec, hkey⟩ := mem_rowsFromLong hpr
      refine ⟨pr.validate_isSome.mpr ⟨?_, hsane⟩, hdated pr hpr⟩
      by_contra hnone
      exact hlabelled rec hrec ⟨_, hkey, by simpa using hnone⟩

end Accepted

end Emitted

section Parse

variable {node : Node} {host : ParserHost} {converter : Option Converter} {parseFile : Parser}
  {files : List (String × Content)} {w : Work}

theorem stagedRows_isSome (node : Node) {rows : List ParsedRow} :
    (stagedRows node rows).isSome ↔ ∀ pr ∈ rows, pr.validate.isSome := by
  induction rows with
  | nil => simp [stagedRows]
  | cons pr rows ih =>
    simp only [stagedRows, List.forall_mem_cons, ← ih]
    cases pr.validate with
    | none => simp
    | some row =>
      cases stagedRows node rows with
      | none => simp
      | some staged =>
        simp only [Option.isSome_some, and_self, iff_true]
        split <;> rfl

theorem rowsFromRecords_deferred (records : List Record) (headers : List String) :
    (rowsFromRecords host records headers).deferred = false := by
  simp only [rowsFromRecords]
  split
  · rfl
  · split <;> rfl

theorem parseCsv_deferred (content : Content) : (parseCsv host content).deferred = false := by
  simp only [parseCsv]
  split
  · rfl
  · split
    · rfl
    · rfl
    · split
      · rfl
      · exact rowsFromRecords_deferred _ _

/-- A file that is left for another host gives no rows. -/
theorem parseFile_deferred {name : String} {content : Content}
    (h : (host.parseFile converter name content).deferred) :
    (host.parseFile converter name content).rows = [] := by
  simp only [ParserHost.parseFile] at h ⊢
  split at h
  · next hsuffix =>
    rw [if_pos hsuffix]
    simp only [parsePqdif] at h ⊢
    cases converter with
    | none => rfl
    | some converter =>
      simp only at h ⊢
      cases hrun : converter.run content with
      | notFound => rfl
      | failed stderr => simp [hrun] at h
      | timedOut => simp [hrun] at h
      | converted stdout =>
        simp only [hrun] at h
        split at h <;> cases h
  · rw [parseCsv_deferred] at h
    cases h

/-- The data files of a survey parse where the row model validates every row of them. -/
theorem parseFiles_isSome :
    (parseFiles (hostParser host converter) node files).isSome ↔
      ∀ f ∈ files, ∀ pr ∈ (host.parseFile converter f.1 f.2).rows, pr.validate.isSome := by
  induction files with
  | nil => simp [parseFiles]
  | cons f files ih =>
    obtain ⟨name, content⟩ := f
    rw [List.forall_mem_cons, ← ih, ← stagedRows_isSome node]
    simp only [parseFiles, hostParser]
    split
    · next hdeferred => simp [parseFile_deferred hdeferred, stagedRows]
    · cases stagedRows node (host.parseFile converter name content).rows with
      | none => simp
      | some rows => cases parseFiles (hostParser host converter) node files <;> simp at *

theorem parseFiles_names (h : parseFiles parseFile node files = some w) :
    w.handled.Sublist (files.map (·.1)) := by
  induction files generalizing w with
  | nil =>
    cases h
    exact List.Sublist.slnil
  | cons f files ih =>
    simp only [parseFiles] at h
    split at h
    · cases h
    · split at h
      · obtain ⟨rest, hrest, rfl⟩ := Option.map_eq_some_iff.mp h
        exact (ih hrest).cons _
      · split at h
        · next rows rest hrows hrest =>
          cases h
          exact (ih hrest).cons_cons _
        · cases h

theorem dataFiles_names (inbox : Folder) : ((dataFiles inbox).map (·.1)).Nodup := by
  have hkeys : ((inbox.keys.filter (· ≠ "manifest.json")).insertionSort (· ≤ ·)).Nodup :=
    (List.perm_insertionSort _ _).nodup_iff.mpr (inbox.nodupKeys.filter _)
  have hsub : ∀ names : List String,
      ((names.filterMap fun name => (inbox.lookup name).map (name, ·)).map (·.1)).Sublist names := by
    intro names
    induction names with
    | nil => exact List.Sublist.slnil
    | cons name names ih =>
      cases hname : inbox.lookup name with
      | none => simpa [hname] using ih.cons name
      | some content => simpa [hname] using ih
  exact hkeys.sublist (hsub _)

theorem stagedRows_dated {rows : List ParsedRow} {staged : List Row}
    (h : stagedRows node rows = some staged) :
    ∀ r ∈ staged, ∃ pr ∈ rows, r.get "ts_utc" = .text pr.tsUtc := by
  induction rows generalizing staged with
  | nil =>
    cases h
    simp
  | cons pr rows ih =>
    simp only [stagedRows] at h
    split at h
    · next row rest hrow hrest =>
      have hlater : ∀ r ∈ rest, ∃ pr' ∈ pr :: rows, r.get "ts_utc" = .text pr'.tsUtc := by
        intro r hr
        obtain ⟨pr', hpr', hget⟩ := ih hrest r hr
        exact ⟨pr', List.mem_cons_of_mem _ hpr', hget⟩
      split at h
      · cases h
        intro r hr
        rcases List.mem_cons.mp hr with rfl | hr
        · refine ⟨pr, List.mem_cons_self, ?_⟩
          simp only [ParsedRow.validate] at hrow
          split at hrow
          · cases hrow
          · split at hrow
            · cases hrow
              rfl
            · cases hrow
        · exact hlater r hr
      · cases h
        exact hlater
    · cases h

/-- Every staged row keeps the time of a parsed row of some file. -/
theorem parseFiles_dated (h : parseFiles (hostParser host converter) node files = some w) :
    ∀ r ∈ w.staged, ∃ f ∈ files, ∃ pr ∈ (host.parseFile converter f.1 f.2).rows,
      r.get "ts_utc" = .text pr.tsUtc := by
  induction files generalizing w with
  | nil =>
    cases h
    simp
  | cons f files ih =>
    obtain ⟨name, content⟩ := f
    have hlater : ∀ rest, parseFiles (hostParser host converter) node files = some rest →
        ∀ r ∈ rest.staged, ∃ f ∈ (name, content) :: files,
          ∃ pr ∈ (host.parseFile converter f.1 f.2).rows, r.get "ts_utc" = .text pr.tsUtc := by
      intro rest hrest r hr
      obtain ⟨f, hf, hpr⟩ := ih hrest r hr
      exact ⟨f, List.mem_cons_of_mem _ hf, hpr⟩
    simp only [parseFiles, hostParser] at h
    split at h
    · obtain ⟨rest, hrest, rfl⟩ := Option.map_eq_some_iff.mp h
      exact hlater rest hrest
    · split at h
      · next rows rest hrows hrest =>
        cases h
        intro r hr
        rcases List.mem_append.mp hr with hr | hr
        · obtain ⟨pr, hpr, hget⟩ := stagedRows_dated hrows r hr
          exact ⟨_, List.mem_cons_self, pr, hpr, hget⟩
        · exact hlater rest hrest r hr
      · cases h

end Parse

/-- A write completes where every row has a time the writer parses and the files take it. -/
theorem writeElectrical_isSome {rt : Runtime} (writer : StagingWriter) {rows : List Row}
    (h : ∀ r ∈ rows, (StagingWriter.path rt .electrical "ts_utc" r).isSome) :
    (StagingWriter.writeElectrical rt none writer rows).2.isSome := by
  have hunique : ∀ r ∈ (writer.dedupe.filterNew StagingWriter.electricalKey rows).2.1,
      (StagingWriter.path rt .electrical "ts_utc" r).isSome :=
    fun r hr => h r (Deduper.filterNew_unique_mem _ hr)
  obtain ⟨located, hlocated⟩ := Option.isSome_iff_exists.mp (StagingWriter.paths_isSome.mpr hunique)
  have hcompleted : (StagingWriter.append rt .electrical electricalCsvColumns "ts_utc" none writer.tree
      (writer.dedupe.filterNew StagingWriter.electricalKey rows).2.1).2 = true := by
    simp only [StagingWriter.append, hlocated]
    exact StagingWriter.appendBuckets_none _ _ _
  simp only [StagingWriter.writeElectrical, StagingWriter.write]
  rw [if_pos hcompleted]
  rfl

namespace Drain

variable {d : Drain} {id : String}

theorem writeArchive_isSome (h : (d.site.surveys.archive.lookup id).isSome) (name : String)
    (content : Content) :
    ∃ d', d.writeArchive id name content = some d' ∧ (d'.site.surveys.archive.lookup id).isSome := by
  obtain ⟨folder, hfolder⟩ := Option.isSome_iff_exists.mp h
  exact ⟨_, by rw [writeArchive, hfolder, Option.map_some], by simp [withArchive, Table.lookup_replaceRow]⟩

theorem moveFile_isSome {name : String} (hfile : (d.inboxFile id name).isSome)
    (harchive : (d.site.surveys.archive.lookup id).isSome) :
    ∃ d', d.moveFile id name = some d' ∧ (d'.site.surveys.archive.lookup id).isSome := by
  obtain ⟨content, hcontent⟩ := Option.isSome_iff_exists.mp hfile
  obtain ⟨folder, hfolder, hlookup⟩ := Option.bind_eq_some_iff.mp hcontent
  obtain ⟨d', hwritten, harchive'⟩ := writeArchive_isSome harchive name content
  refine ⟨d'.withInbox (d'.site.surveys.inbox.replaceRow id (folder.deleteRow name)), ?_, harchive'⟩
  simp only [moveFile, hfolder, hlookup, hwritten, Option.map_some]

end Drain

/-- The inbox folder of a survey is there with the files that are still to be moved. -/
structure Present (id : String) (names : List String) (d : Drain) : Prop where
  folder : (d.site.surveys.inbox.lookup id).isSome
  nodup : names.Nodup
  files : ∀ name ∈ names, (d.inboxFile id name).isSome

theorem Present.of_inbox {id : String} {names : List String} {d d' : Drain} (h : Present id names d)
    (hinbox : d'.site.surveys.inbox = d.site.surveys.inbox) : Present id names d' where
  folder := hinbox ▸ h.folder
  nodup := h.nodup
  files name hname := by
    rw [Drain.inboxFile, hinbox]
    exact h.files name hname

theorem Present.moveFile {id name : String} {names : List String} {d d' : Drain}
    (h : Present id (name :: names) d) (hmove : d.moveFile id name = some d') : Present id names d' := by
  obtain ⟨hname, hnames⟩ := List.nodup_cons.mp h.nodup
  obtain ⟨content, -, hfolder, hinbox, -⟩ := Drain.moveFile_file hmove
  refine ⟨hfolder, hnames, fun n hn => ?_⟩
  have hne : n ≠ name := fun heq => hname (heq ▸ hn)
  rw [hinbox n, if_neg hne]
  exact h.files n (List.mem_cons_of_mem _ hn)

theorem parseFiles_present {id : String} {d : Drain} {folder : Folder} {parseFile : Parser} {node : Node}
    {w : Work} (hfolder : d.site.surveys.inbox.lookup id = some folder)
    (hparsed : parseFiles parseFile node (dataFiles folder) = some w) : Present id w.handled d where
  folder := by rw [hfolder, Option.isSome_some]
  nodup := (dataFiles_names folder).sublist (parseFiles_names hparsed)
  files name hname := by
    obtain ⟨f, hf, rfl⟩ := List.mem_map.mp ((parseFiles_names hparsed).subset hname)
    rw [Drain.inboxFile, hfolder, Option.bind_some, (mem_dataFiles.mp hf).1, Option.isSome_some]

section Run

variable (id : String) (node : Node) (parseFile : Parser) (folder : Folder)

/-- The survey of a live node whose files are parsed, at each stage of it. -/
def OnTrack (w : Work) (d : Drain) : Stage → Prop
  | .start => (d.readManifest id).isSome ∧ d.site.db.getNode id = some node ∧
      d.site.surveys.inbox.lookup id = some folder
  | .described _ => d.site.db.getNode id = some node ∧ d.site.surveys.inbox.lookup id = some folder
  | .withdrawn => False
  | .purging => False
  | .loaded _ current => current = node ∧ d.site.surveys.inbox.lookup id = some folder
  | .parsed _ current => current = w ∧ Present id w.handled d
  | .staged _ current _ _ => current = w ∧ Present id w.handled d
  | .archiving _ current _ _ => current = w ∧ Present id w.handled d ∧
      (d.site.surveys.archive.lookup id).isSome
  | .moving _ _ _ _ remaining => Present id remaining d ∧ (d.site.surveys.archive.lookup id).isSome
  | .cleaning _ _ => True
  | .finished outcome => outcome ≠ .error

/-- The survey whose files are not parsed, at each stage of it. -/
def OffTrack (d : Drain) : Stage → Prop
  | .start => d.site.db.getNode id = some node ∧ d.site.surveys.inbox.lookup id = some folder
  | .described _ => d.site.db.getNode id = some node ∧ d.site.surveys.inbox.lookup id = some folder
  | .loaded _ current => current = node ∧ d.site.surveys.inbox.lookup id = some folder
  | .finished outcome => outcome = .error
  | _ => False

variable {id node parseFile folder} {rt : Runtime} {w : Work} {d : Drain} {stage : Stage}

theorem step_onTrack (hparsed : parseFiles parseFile node (dataFiles folder) = some w)
    (hpaths : ∀ r ∈ w.staged, (StagingWriter.path rt .electrical "ts_utc" r).isSome) {tick : Tick}
    (hfault : tick.fault = none) (h : OnTrack id node folder w d stage) :
    OnTrack id node folder w (step rt parseFile id tick d stage).1
      (step rt parseFile id tick d stage).2 := by
  cases stage with
  | start =>
    obtain ⟨hmanifest, hlive, hfolder⟩ := h
    obtain ⟨m, hm⟩ := Option.isSome_iff_exists.mp hmanifest
    simp only [step, hm]
    exact ⟨hlive, hfolder⟩
  | described m =>
    simp only [step, h.1]
    exact ⟨rfl, h.2⟩
  | withdrawn => exact h.elim
  | purging => exact h.elim
  | loaded m current =>
    obtain ⟨rfl, hfolder⟩ := h
    simp only [step, hfolder, Option.bind_some, hparsed]
    exact ⟨rfl, parseFiles_present hfolder hparsed⟩
  | parsed m current =>
    obtain ⟨rfl, hpresent⟩ := h
    have hwritten := writeElectrical_isSome ⟨d.site.tree, d.dedupe⟩ hpaths
    simp only [step, hfault]
    split
    · next hnone =>
      rw [hnone] at hwritten
      cases hwritten
    · exact ⟨rfl, hpresent.of_inbox rfl⟩
  | staged m current accepted dups =>
    refine ⟨h.1, h.2.of_inbox rfl, ?_⟩
    simp [step, Drain.makeArchive, Drain.withArchive, Table.lookup_replaceRow]
  | archiving m current accepted dups =>
    obtain ⟨rfl, hpresent, harchive⟩ := h
    simp only [step]
    split
    · exact ⟨hpresent, harchive⟩
    · obtain ⟨d', hwritten, harchive'⟩ := Drain.writeArchive_isSome harchive (extractedName tick.now)
        (.extracted (extractedLines current.staged))
      rw [hwritten]
      exact ⟨hpresent.of_inbox (Drain.writeArchive_frame hwritten).2.2.2, harchive'⟩
  | moving m current accepted dups remaining =>
    obtain ⟨hpresent, harchive⟩ := h
    cases remaining with
    | cons name remaining =>
      obtain ⟨d', hmove, harchive'⟩ :=
        Drain.moveFile_isSome (hpresent.files name List.mem_cons_self) harchive
      simp only [step, hmove]
      exact ⟨hpresent.moveFile hmove, harchive'⟩
    | nil =>
      simp only [step]
      split
      · obtain ⟨d', hwritten, -⟩ := Drain.writeArchive_isSome harchive "manifest.json"
          (.manifest (processedManifest m current accepted dups tick.now))
        rw [hwritten]
        trivial
      · have hwritten : (d.writeInbox id "manifest.json"
            (.manifest (processedManifest m current accepted dups tick.now))).isSome :=
          Drain.writeInbox_isSome.trans hpresent.folder
        obtain ⟨d', hwritten⟩ := Option.isSome_iff_exists.mp hwritten
        rw [hwritten]
        exact fun heq => by cases heq
  | cleaning accepted files => exact fun heq => by cases heq
  | finished outcome => exact h

theorem run_onTrack (hparsed : parseFiles parseFile node (dataFiles folder) = some w)
    (hpaths : ∀ r ∈ w.staged, (StagingWriter.path rt .electrical "ts_utc" r).isSome)
    {ticks : Nat → Tick} (hfaults : ∀ n, (ticks n).fault = none) (fuel : Nat)
    (h : OnTrack id node folder w d stage) :
    OnTrack id node folder w (run rt parseFile id ticks fuel d stage).1
      (run rt parseFile id ticks fuel d stage).2 := by
  induction fuel generalizing d stage with
  | zero => exact h
  | succ fuel ih => exact ih (step_onTrack hparsed hpaths (hfaults fuel) h)

theorem effect_offTrack (hparsed : parseFiles parseFile node (dataFiles folder) = none) {d' : Drain}
    {stage' : Stage} (h : OffTrack id node folder d stage)
    (heffect : Effect rt parseFile id d stage d' stage') : OffTrack id node folder d' stage' := by
  cases heffect with
  | fail => exact rfl
  | describe => exact h
  | load hlive => exact ⟨Option.some.inj ((Eq.symm hlive).trans h.1), h.2⟩
  | withdraw hgone =>
    rw [h.1] at hgone
    cases hgone
  | parse m current w hfound hw =>
    obtain ⟨rfl, hfolder⟩ := h
    obtain rfl := Option.some.inj ((Eq.symm hfound).trans hfolder)
    rw [hparsed] at hw
    cases hw
  | done => exact h
  | _ => exact h.elim

/-- A survey whose files do not parse ends in an error. -/
theorem processSurvey_fails (hparsed : parseFiles parseFile node (dataFiles folder) = none) (rt : Runtime)
    (hlive : d.site.db.getNode id = some node) (hfolder : d.site.surveys.inbox.lookup id = some folder)
    (ticks : Nat → Tick) : (processSurvey rt parseFile id ticks d).2 = .finished .error := by
  obtain ⟨outcome, hend⟩ : ∃ outcome, (processSurvey rt parseFile id ticks d).2 = .finished outcome :=
    processSurvey_finished ticks d
  have hoff : OffTrack id node folder d .start := ⟨hlive, hfolder⟩
  have hrun : OffTrack id node folder (processSurvey rt parseFile id ticks d).1
      (processSurvey rt parseFile id ticks d).2 :=
    run_invariant (I := OffTrack id node folder)
      (fun _ _ _ _ h heffect => effect_offTrack hparsed h heffect) ticks (fuelFor id d) d .start hoff
  rw [hend] at hrun
  rw [hend, show outcome = .error from hrun]

end Run

/-- No content wedges a survey, exactly where no long file names a phase the row model does not know:
the survey completes, and every row of it is accepted. -/
theorem survey_completes_iff (host : ParserHost)
    (hdates : ∀ value dt, host.toDatetime value = some dt → (host.rt.parseIso (isoZ dt)).isSome)
    (converter : Option Converter) (id : String) (node : Node) (folder : Folder) (d : Drain)
    (hlive : d.site.db.getNode id = some node) (hmanifest : (d.readManifest id).isSome)
    (hfolder : d.site.surveys.inbox.lookup id = some folder) (ticks : Nat → Tick)
    (hfaults : ∀ n, (ticks n).fault = none) :
    ((∃ outcome, (processSurvey host.rt (hostParser host converter) id ticks d).2 = .finished outcome ∧
        outcome ≠ .error) ↔
      ∀ f ∈ dataFiles folder, ∀ rec ∈ longRecords host converter f.1 f.2, ¬Unlabelled host rec) ∧
    ((∀ f ∈ dataFiles folder, ∀ pr ∈ (host.parseFile converter f.1 f.2).rows, pr.Accepted host.rt) ↔
      ∀ f ∈ dataFiles folder, ∀ rec ∈ longRecords host converter f.1 f.2, ¬Unlabelled host rec) := by
  have haccepted : (∀ f ∈ dataFiles folder, ∀ pr ∈ (host.parseFile converter f.1 f.2).rows,
      pr.Accepted host.rt) ↔
        ∀ f ∈ dataFiles folder, ∀ rec ∈ longRecords host converter f.1 f.2, ¬Unlabelled host rec :=
    forall₂_congr fun f _ => (parseFile_emitted converter f.1 f.2).accepted_iff hdates
  refine ⟨⟨fun hcompletes => ?_, fun hlabelled => ?_⟩, haccepted⟩
  · obtain ⟨outcome, hend, hne⟩ := hcompletes
    cases hparsed : parseFiles (hostParser host converter) node (dataFiles folder) with
    | none =>
      rw [processSurvey_fails hparsed host.rt hlive hfolder ticks] at hend
      cases hend
      exact absurd rfl hne
    | some w =>
      refine haccepted.mp fun f hf pr hpr => ?_
      have hvalid := parseFiles_isSome.mp (by rw [hparsed, Option.isSome_some]) f hf pr hpr
      exact ⟨hvalid, (parseFile_emitted converter f.1 f.2).dated hdates pr hpr⟩
  · have hrows := haccepted.mpr hlabelled
    obtain ⟨w, hparsed⟩ := Option.isSome_iff_exists.mp
      (parseFiles_isSome.mpr fun f hf pr hpr => (hrows f hf pr hpr).validated)
    have hpaths : ∀ r ∈ w.staged, (StagingWriter.path host.rt .electrical "ts_utc" r).isSome := by
      intro r hr
      obtain ⟨f, hf, pr, hpr, hget⟩ := parseFiles_dated hparsed r hr
      rw [StagingWriter.path, hget]
      exact Option.isSome_map.trans (hrows f hf pr hpr).dated
    obtain ⟨outcome, hend⟩ : ∃ outcome,
        (processSurvey host.rt (hostParser host converter) id ticks d).2 = .finished outcome :=
      processSurvey_finished ticks d
    have hon : OnTrack id node folder w d .start := ⟨hmanifest, hlive, hfolder⟩
    have hrun := run_onTrack hparsed hpaths hfaults (fuelFor id d) hon
    rw [processSurvey] at hend
    rw [hend] at hrun
    exact ⟨outcome, hend, hrun⟩

/-- The inbox folder of a log uploaded as text. -/
def logFolder (text : String) : Folder :=
  (Table.replaceRow ∅ "manifest.json" (.manifest {})).replaceRow "000_log.csv"
    (.raw (text.toList.map fun c => UInt8.ofNat c.toNat))

def textDrain (text : String) : Drain :=
  { site := { Drains.logSite with
      surveys := { inbox := Table.replaceRow ∅ "n1" (logFolder text) } } }

theorem ParserHost.ascii_dates (value : Option String) (dt : DateTime)
    (h : ParserHost.ascii.toDatetime value = some dt) :
    (ParserHost.ascii.rt.parseIso (isoZ dt)).isSome := by
  simp only [ParserHost.ascii] at h
  split at h
  · cases h
    decide +kernel
  · cases h

/-- A converted log with a phase of the model. -/
def labelledLog : String := "timestamp,phase,channel,value\n2026-01-01T00:00:00Z,L1,voltage,240"

theorem survey_completes_iff_labelledLog :
    (∃ outcome, (processSurvey ParserHost.ascii.rt (hostParser .ascii none) "n1" (fun _ => {})
      (textDrain labelledLog)).2 = .finished outcome ∧ outcome ≠ .error) ∧
    ∀ f ∈ dataFiles (logFolder labelledLog), ∀ pr ∈ (ParserHost.ascii.parseFile none f.1 f.2).rows,
      pr.Accepted ParserHost.ascii.rt := by
  obtain ⟨node, hlive⟩ : ∃ node, (textDrain labelledLog).site.db.getNode "n1" = some node :=
    Option.isSome_iff_exists.mp (by decide +kernel)
  have hphases : ∀ f ∈ dataFiles (logFolder labelledLog), ∀ rec ∈ longRecords .ascii none f.1 f.2,
      (phaseOf (longPhase .ascii (longRecord .ascii rec))).isSome := by decide +kernel
  have hlabelled : ∀ f ∈ dataFiles (logFolder labelledLog), ∀ rec ∈ longRecords .ascii none f.1 f.2,
      ¬Unlabelled .ascii rec := by
    rintro f hf rec hrec ⟨key, hkey, hnone⟩
    have hsome := hphases f hf rec hrec
    rw [hkey.phased, hnone] at hsome
    cases hsome
  obtain ⟨hcompletes, haccepted⟩ := survey_completes_iff .ascii ParserHost.ascii_dates none "n1" node
    (logFolder labelledLog) (textDrain labelledLog) hlive (by decide +kernel) rfl (fun _ => {})
    fun _ => rfl
  exact ⟨hcompletes.mpr hlabelled, haccepted.mpr hlabelled⟩

/-- A converted log with a phase of the meter's own. -/
def unlabelledLog : String := "timestamp,phase,channel,value\n2026-01-01T00:00:00Z,A,voltage,240"

/-- A long file with a phase `A` fails its survey. -/
theorem unlabelled_survey_fails :
    ¬∀ (host : ParserHost) (converter : Option Converter) (id : String) (node : Node) (folder : Folder)
        (d : Drain) (ticks : Nat → Tick),
        (∀ value dt, host.toDatetime value = some dt → (host.rt.parseIso (isoZ dt)).isSome) →
        d.site.db.getNode id = some node → (d.readManifest id).isSome →
        d.site.surveys.inbox.lookup id = some folder →
        (∀ f ∈ dataFiles folder, host.rt.lower (pathSuffix f.1) ∈ [".csv", ".txt", ".tsv"]) →
        (∀ n, (ticks n).fault = none) →
        ∃ outcome, (processSurvey host.rt (hostParser host converter) id ticks d).2 = .finished outcome ∧
          outcome ≠ .error := by
  intro h
  obtain ⟨node, hlive⟩ : ∃ node, (textDrain unlabelledLog).site.db.getNode "n1" = some node :=
    Option.isSome_iff_exists.mp (by decide +kernel)
  obtain ⟨outcome, hend, hne⟩ := h .ascii none "n1" node (logFolder unlabelledLog)
    (textDrain unlabelledLog) (fun _ => {}) ParserHost.ascii_dates hlive (by decide +kernel) rfl
    (by decide +kernel) fun _ => rfl
  have hinvalid : ¬∀ f ∈ dataFiles (logFolder unlabelledLog),
      ∀ pr ∈ (ParserHost.ascii.parseFile none f.1 f.2).rows, pr.validate.isSome := by decide +kernel
  have hparsed :
      parseFiles (hostParser .ascii none) node (dataFiles (logFolder unlabelledLog)) = none := by
    rw [← Option.not_isSome_iff_eq_none, parseFiles_isSome]
    exact hinvalid
  rw [processSurvey_fails hparsed ParserHost.ascii.rt hlive rfl] at hend
  cases hend
  exact hne rfl

end GridWitness.Survey
