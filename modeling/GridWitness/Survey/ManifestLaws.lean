import GridWitness.Survey.CompletionLaws
import Mathlib.Algebra.Order.Ring.Nat
import GridWitness.Survey.FileLaws

namespace GridWitness.Survey

open Library Server

/-- The file a report is about. -/
def reportFile : FileReport → String
  | .pending file _ => file
  | .parsed file _ _ _ _ => file

/-- So many rows are staged, each on a line of the file of its hour. -/
def Stages (rt : Runtime) (tree tree' : StagingTree) (n : Nat) : Prop :=
  ∃ rows : List Row, rows.length = n ∧
    (∀ r ∈ rows, (StagingWriter.path rt .electrical "ts_utc" r).isSome) ∧
    ∀ p, tree'.lines p =
      if rows.filter (StagingWriter.path rt .electrical "ts_utc" · = some p) = [] then tree.lines p
      else tree.lines p ++ StagingWriter.output electricalCsvColumns tree p
        (rows.filter (StagingWriter.path rt .electrical "ts_utc" · = some p))

theorem Stages.none (rt : Runtime) (tree : StagingTree) : Stages rt tree tree 0 :=
  ⟨[], rfl, fun _ hr => absurd hr List.not_mem_nil, fun _ => rfl⟩

/-- A completed write stages the rows it counts, and a failed one that nothing faults stages none. -/
theorem writeElectrical_stages (rt : Runtime) (writer : StagingWriter) (rows : List Row) :
    Stages rt writer.tree (StagingWriter.writeElectrical rt none writer rows).1.tree
      ((StagingWriter.writeElectrical rt none writer rows).2.elim 0 (·.1)) := by
  simp only [StagingWriter.writeElectrical, StagingWriter.write]
  by_cases hpaths : ∀ r ∈ (writer.dedupe.filterNew StagingWriter.electricalKey rows).2.1,
      (StagingWriter.path rt .electrical "ts_utc" r).isSome
  · obtain ⟨located, hlocated⟩ := Option.isSome_iff_exists.mp (StagingWriter.paths_isSome.mpr hpaths)
    have hdone : (StagingWriter.append rt .electrical electricalCsvColumns "ts_utc" none writer.tree
        (writer.dedupe.filterNew StagingWriter.electricalKey rows).2.1).2 = true := by
      simp only [StagingWriter.append, hlocated]
      exact StagingWriter.appendBuckets_none _ _ _
    rw [if_pos hdone]
    exact ⟨_, rfl, hpaths, fun p => (StagingWriter.append_lines hpaths p).1⟩
  · have hnone : StagingWriter.append rt .electrical electricalCsvColumns "ts_utc" none writer.tree
        (writer.dedupe.filterNew StagingWriter.electricalKey rows).2.1 = (writer.tree, false) := by
      have hlocated := StagingWriter.paths_isSome.not.mpr hpaths
      rw [Option.not_isSome_iff_eq_none] at hlocated
      rw [StagingWriter.append, hlocated]
    rw [hnone]
    exact .none rt writer.tree

section Handled

variable (rt : Runtime) (parseFile : Parser) (id : String) (m : Manifest) (node : Node) (folder : Folder)
  (tree : StagingTree)

/-- The files of a survey are parsed, and the rows to be staged have times that read. -/
structure Handled (w : Work) : Prop where
  parsed : parseFiles parseFile node (dataFiles folder) = some w
  dated : ∀ r ∈ w.staged, (StagingWriter.path rt .electrical "ts_utc" r).isSome

/-- The survey has its folder as the drain found it, and no manifest in the archive. -/
structure Untouched (d : Drain) : Prop where
  found : d.site.surveys.inbox.lookup id = some folder
  unarchived : d.archiveFile id "manifest.json" = none

/-- What a survey leaves behind that found a manifest, a folder and a staging tree, at each stage of it. -/
def Recorded (d : Drain) : Stage → Prop
  | .start => d.site.tree = tree ∧ d.readManifest id = some m ∧ d.site.db.getNode id = some node ∧
      Untouched id folder d ∧ Unseen id d.dedupe
  | .described current => d.site.tree = tree ∧ current = m ∧ d.site.db.getNode id = some node ∧
      Untouched id folder d ∧ Unseen id d.dedupe
  | .withdrawn => False
  | .purging => False
  | .loaded current n => d.site.tree = tree ∧ current = m ∧ n = node ∧ Untouched id folder d ∧
      Unseen id d.dedupe
  | .parsed current w => d.site.tree = tree ∧ current = m ∧
      parseFiles parseFile node (dataFiles folder) = some w ∧ Untouched id folder d ∧ Unseen id d.dedupe
  | .staged current w accepted _ => Stages rt tree d.site.tree accepted ∧ current = m ∧
      Handled rt parseFile node folder w ∧ Untouched id folder d
  | .archiving current w accepted _ => Stages rt tree d.site.tree accepted ∧ current = m ∧
      Handled rt parseFile node folder w ∧ Untouched id folder d ∧
      (d.site.surveys.archive.lookup id).isSome
  | .moving current w accepted _ remaining => Stages rt tree d.site.tree accepted ∧ current = m ∧
      Handled rt parseFile node folder w ∧ remaining ⊆ w.handled ∧ Present id remaining d ∧
      (d.site.surveys.archive.lookup id).isSome ∧ d.archiveFile id "manifest.json" = none
  | .cleaning accepted _ => Stages rt tree d.site.tree accepted ∧
      ∃ w dups now, Handled rt parseFile node folder w ∧ w.deferred = [] ∧
        d.archiveFile id "manifest.json" = some (.manifest (processedManifest m w accepted dups now))
  | .finished .purgedWithdrawn => False
  | .finished .error => Stages rt tree d.site.tree 0 ∧ Untouched id folder d ∧
      ¬∃ w, Handled rt parseFile node folder w
  | .finished (.pqdifPending accepted _) => Stages rt tree d.site.tree accepted ∧
      ∃ w dups now, Handled rt parseFile node folder w ∧ w.deferred ≠ [] ∧
        d.archiveFile id "manifest.json" = none ∧
        d.inboxFile id "manifest.json" = some (.manifest (processedManifest m w accepted dups now))
  | .finished (.processed accepted _) => Stages rt tree d.site.tree accepted ∧
      ∃ w dups now, Handled rt parseFile node folder w ∧ w.deferred = [] ∧
        d.site.surveys.inbox.lookup id = none ∧
        d.archiveFile id "manifest.json" = some (.manifest (processedManifest m w accepted dups now))

end Handled

/-- A write that nothing faults completes exactly where the times of its rows read, if the window knows
none of them. -/
theorem writeElectrical_isSome_iff {rt : Runtime} {writer : StagingWriter} {node : Node} {rows : List Row}
    (hunseen : Unseen node.nodeId writer.dedupe) (hrows : ∀ r ∈ rows, SurveyRow node r) :
    (StagingWriter.writeElectrical rt none writer rows).2.isSome ↔
      ∀ r ∈ rows, (StagingWriter.path rt .electrical "ts_utc" r).isSome := by
  refine ⟨fun h r hr => ?_, writeElectrical_isSome writer⟩
  have hdone : (StagingWriter.append rt .electrical electricalCsvColumns "ts_utc" none writer.tree
      (writer.dedupe.filterNew StagingWriter.electricalKey rows).2.1).2 = true := by
    by_contra hfail
    simp [StagingWriter.writeElectrical, StagingWriter.write, hfail] at h
  rcases Deduper.filterNew_covers StagingWriter.electricalKey (d := writer.dedupe) hr with hk | ⟨u, hu, hkey⟩
  · exact absurd (hrows r hr).head (hunseen _ hk)
  · have hts : u.get "ts_utc" = r.get "ts_utc" := congrArg (fun key => key.getD 1 .null) hkey
    have hpath := (StagingWriter.append_completed hdone).1 u hu
    rwa [StagingWriter.path, hts] at hpath

section Run

variable {rt : Runtime} {parseFile : Parser} {id : String} {m : Manifest} {node : Node} {folder : Folder}
  {tree : StagingTree} {d : Drain} {stage : Stage}

theorem Untouched.of_folders {d' : Drain} (h : Untouched id folder d)
    (hinbox : d'.site.surveys.inbox = d.site.surveys.inbox)
    (harchive : d'.archiveFile id "manifest.json" = d.archiveFile id "manifest.json") :
    Untouched id folder d' where
  found := by rw [hinbox, h.found]
  unarchived := by rw [harchive, h.unarchived]

theorem Handled.plain {w : Work} (h : Handled rt parseFile node folder w) :
    "manifest.json" ∉ w.handled := by
  intro hname
  obtain ⟨f, hf, heq⟩ := List.mem_map.mp ((parseFiles_names h.parsed).subset hname)
  obtain ⟨name, content⟩ := f
  exact (mem_dataFiles.mp hf).2 heq

theorem step_recorded (hid : node.nodeId = id) {tick : Tick} (hfault : tick.fault = none)
    (h : Recorded rt parseFile id m node folder tree d stage) :
    Recorded rt parseFile id m node folder tree (step rt parseFile id tick d stage).1
      (step rt parseFile id tick d stage).2 := by
  cases stage with
  | start =>
    obtain ⟨htree, hmanifest, hlive, hsame, hunseen⟩ := h
    simp only [step, hmanifest]
    exact ⟨htree, rfl, hlive, hsame, hunseen⟩
  | described current =>
    obtain ⟨htree, hm, hlive, hsame, hunseen⟩ := h
    simp only [step, hlive]
    exact ⟨htree, hm, rfl, hsame, hunseen⟩
  | withdrawn => exact h.elim
  | purging => exact h.elim
  | loaded current n =>
    obtain ⟨htree, hm, rfl, hsame, hunseen⟩ := h
    simp only [step, hsame.found, Option.bind_some]
    cases hparsed : parseFiles parseFile n (dataFiles folder) with
    | none =>
      refine ⟨htree ▸ .none rt _, hsame, fun hhandled => ?_⟩
      obtain ⟨w, hw⟩ := hhandled
      rw [hw.parsed] at hparsed
      cases hparsed
    | some w => exact ⟨htree, hm, hparsed, hsame, hunseen⟩
  | parsed current w =>
    obtain ⟨rfl, hm, hparsed, hsame, hunseen⟩ := h
    have hdone : (StagingWriter.writeElectrical rt none ⟨d.site.tree, d.dedupe⟩ w.staged).2.isSome ↔ _ :=
      writeElectrical_isSome_iff (hid ▸ hunseen) (parseFiles_surveyRow hparsed)
    have hstages := writeElectrical_stages rt ⟨d.site.tree, d.dedupe⟩ w.staged
    simp only [step, hfault]
    split
    · next hnone =>
      rw [hnone] at hstages
      refine ⟨hstages, hsame.of_folders rfl rfl, fun hhandled => ?_⟩
      obtain ⟨w', hw'⟩ := hhandled
      obtain rfl := Option.some.inj (hparsed.symm.trans hw'.parsed)
      rw [hnone] at hdone
      cases hdone.mpr hw'.dated
    · next hsome =>
      rw [hsome] at hdone hstages
      exact ⟨hstages, hm, ⟨hparsed, hdone.mp rfl⟩, hsame.of_folders rfl rfl⟩
  | staged current w accepted dups =>
    obtain ⟨hstages, hm, hhandled, hsame⟩ := h
    refine ⟨hstages, hm, hhandled, hsame.of_folders rfl (Drain.makeArchive_file _), ?_⟩
    simp [step, Drain.makeArchive, Drain.withArchive, Table.lookup_replaceRow]
  | archiving current w accepted dups =>
    obtain ⟨hstages, hm, hhandled, hsame, harchive⟩ := h
    have hpresent : Present id w.handled d := parseFiles_present hsame.found hhandled.parsed
    simp only [step]
    split
    · exact ⟨hstages, hm, hhandled, List.Subset.refl _, hpresent, harchive, hsame.unarchived⟩
    · obtain ⟨d', hwritten, harchive'⟩ := Drain.writeArchive_isSome harchive (extractedName tick.now)
        (.extracted (extractedLines w.staged))
      obtain ⟨-, htree, -, hinbox⟩ := Drain.writeArchive_frame hwritten
      rw [hwritten]
      refine ⟨htree ▸ hstages, hm, hhandled, List.Subset.refl _, hpresent.of_inbox hinbox, harchive', ?_⟩
      rw [Drain.writeArchive_file hwritten, if_neg (ne_extractedName (by decide) _), hsame.unarchived]
  | moving current w accepted dups remaining =>
    obtain ⟨hstages, rfl, hhandled, hsub, hpresent, harchive, hnone⟩ := h
    cases remaining with
    | cons name remaining =>
      obtain ⟨d', hmove, harchive'⟩ :=
        Drain.moveFile_isSome (hpresent.files name List.mem_cons_self) harchive
      simp only [step, hmove]
      obtain ⟨content, -, -, -, hfiles⟩ := Drain.moveFile_file hmove
      have hne : "manifest.json" ≠ name := fun heq =>
        hhandled.plain (heq ▸ hsub List.mem_cons_self)
      exact ⟨(Drain.moveFile_frame hmove).2.1 ▸ hstages, rfl, hhandled,
        fun n hn => hsub (List.mem_cons_of_mem _ hn), hpresent.moveFile hmove, harchive',
        by rw [hfiles, if_neg hne, hnone]⟩
    | nil =>
      simp only [step]
      split
      · next hdone =>
        obtain ⟨d', hwritten, -⟩ := Drain.writeArchive_isSome harchive "manifest.json"
          (.manifest (processedManifest current w accepted dups tick.now))
        rw [hwritten]
        exact ⟨(Drain.writeArchive_frame hwritten).2.1 ▸ hstages, w, dups, tick.now, hhandled, hdone,
          by rw [Drain.writeArchive_file hwritten, if_pos rfl]⟩
      · next hleft =>
        have hwritten : (d.writeInbox id "manifest.json"
            (.manifest (processedManifest current w accepted dups tick.now))).isSome :=
          Drain.writeInbox_isSome.trans hpresent.folder
        obtain ⟨d', hwritten⟩ := Option.isSome_iff_exists.mp hwritten
        obtain ⟨-, htree, -, hframe⟩ := Drain.writeInbox_frame hwritten
        rw [hwritten]
        refine ⟨htree ▸ hstages, w, dups, tick.now, hhandled, hleft, ?_,
          by rw [Drain.writeInbox_file hwritten, if_pos rfl]⟩
        rw [← hnone, Drain.archiveFile, hframe]
        rfl
  | cleaning accepted files =>
    obtain ⟨hstages, w, dups, now, hhandled, hdone, harchived⟩ := h
    refine ⟨hstages, w, dups, now, hhandled, hdone, ?_, harchived⟩
    simp [step, Drain.withInbox, Table.lookup_deleteRow]
  | finished outcome => exact h

/-- A survey whose node is gone, at each stage of it. -/
def Withdrawing (id : String) (tree : StagingTree) (d : Drain) : Stage → Prop
  | .start => d.site.tree = tree ∧ (d.readManifest id).isSome ∧ d.site.db.getNode id = none
  | .described _ => d.site.tree = tree ∧ d.site.db.getNode id = none
  | .withdrawn => d.site.tree = tree
  | .purging => d.site.tree = tree ∧ d.site.surveys.inbox.lookup id = none
  | .finished .purgedWithdrawn => d.site.tree = tree ∧ d.site.surveys.inbox.lookup id = none ∧
      d.site.surveys.archive.lookup id = none
  | _ => False

theorem step_withdrawing {tick : Tick} (h : Withdrawing id tree d stage) :
    Withdrawing id tree (step rt parseFile id tick d stage).1 (step rt parseFile id tick d stage).2 := by
  cases stage with
  | start =>
    obtain ⟨htree, hmanifest, hgone⟩ := h
    obtain ⟨m, hm⟩ := Option.isSome_iff_exists.mp hmanifest
    simp only [step, hm]
    exact ⟨htree, hgone⟩
  | described current =>
    obtain ⟨htree, hgone⟩ := h
    simp only [step, hgone]
    exact htree
  | withdrawn => exact ⟨h, by simp [step, Drain.withInbox, Table.lookup_deleteRow]⟩
  | purging =>
    obtain ⟨htree, hgone⟩ := h
    exact ⟨htree, hgone, by simp [step, Drain.withArchive, Table.lookup_deleteRow]⟩
  | finished outcome => exact h
  | _ => exact h.elim

end Run

section Readable

variable (rt : Runtime) (node : Node) (parseFile : Parser)

/-- Each row of a file is one of the row model, and has a time that reads if it is to be staged. -/
def RowsRead (rows : List ParsedRow) : Prop :=
  ∀ pr ∈ rows, ∃ row, pr.validate = some row ∧
    ((∀ c ∈ row.presentChannels, c ∈ node.channels) → (rt.parseIso row.tsUtc).isSome)

/-- The parser makes something of a file: it defers it, or it gives rows that all read. -/
def Readable (f : String × Content) : Prop :=
  ∃ res, parseFile f.1 f.2 = some res ∧ (res.deferred = false → RowsRead rt node res.rows)

/-- The parser defers a file. -/
def Deferred (f : String × Content) : Prop :=
  ∃ res, parseFile f.1 f.2 = some res ∧ res.deferred = true

end Readable

section Files

variable {rt : Runtime} {node : Node} {parseFile : Parser}

theorem stagedRows_read {rows : List ParsedRow} :
    (∃ staged, stagedRows node rows = some staged ∧
        ∀ r ∈ staged, (StagingWriter.path rt .electrical "ts_utc" r).isSome) ↔
      RowsRead rt node rows := by
  induction rows with
  | nil => simp [stagedRows, RowsRead]
  | cons pr rows ih =>
    rw [RowsRead, List.forall_mem_cons, ← RowsRead, ← ih, stagedRows]
    cases hrow : pr.validate with
    | none => simp
    | some row =>
      have hpath : (StagingWriter.path rt .electrical "ts_utc" (projectElectrical row node)).isSome ↔
          (rt.parseIso row.tsUtc).isSome := by
        rw [StagingWriter.path]
        exact iff_of_eq (congrArg (· = true) Option.isSome_map)
      cases stagedRows node rows with
      | none => simp
      | some staged =>
        by_cases hconsent : ∀ c ∈ row.presentChannels, c ∈ node.channels
        · have hnone : row.presentChannels.filter (· ∉ node.channels) = [] := by
            simpa [List.filter_eq_nil_iff] using hconsent
          simp only [hnone, if_true, Option.some.injEq, exists_eq_left', List.forall_mem_cons, hpath]
          exact and_congr_left fun _ => ⟨fun h _ => h, fun h => h hconsent⟩
        · have hsome : row.presentChannels.filter (· ∉ node.channels) ≠ [] := by
            simpa [List.filter_eq_nil_iff] using hconsent
          simp only [hsome, if_false, Option.some.injEq, exists_eq_left']
          exact ⟨fun h => ⟨fun hall => absurd hall hconsent, h⟩, fun h => h.2⟩

/-- The files of a survey are parsed and staged exactly where each of them reads. -/
theorem parseFiles_read {files : List (String × Content)} :
    (∃ w, parseFiles parseFile node files = some w ∧
        ∀ r ∈ w.staged, (StagingWriter.path rt .electrical "ts_utc" r).isSome) ↔
      ∀ f ∈ files, Readable rt node parseFile f := by
  induction files with
  | nil => simp [parseFiles]
  | cons f files ih =>
    obtain ⟨name, content⟩ := f
    rw [List.forall_mem_cons, ← ih, parseFiles, Readable]
    cases parseFile name content with
    | none => simp
    | some res =>
      simp only [Option.some.injEq, exists_eq_left']
      by_cases hdeferred : res.deferred = true
      · simp [hdeferred]
      · have hhandled : res.deferred = false := by simpa using hdeferred
        simp only [hhandled, Bool.false_eq_true, if_false, true_imp_iff, ← stagedRows_read]
        cases stagedRows node res.rows with
        | none => simp
        | some rows =>
          cases parseFiles parseFile node files with
          | none => simp
          | some w => simp [or_imp, forall_and]

theorem parseFiles_deferred {files : List (String × Content)} {w : Work}
    (h : parseFiles parseFile node files = some w) :
    w.deferred = [] ↔ ∀ f ∈ files, ¬Deferred parseFile f := by
  induction files generalizing w with
  | nil =>
    cases h
    simp
  | cons f files ih =>
    obtain ⟨name, content⟩ := f
    rw [parseFiles] at h
    rw [List.forall_mem_cons, Deferred]
    cases hres : parseFile name content with
    | none => simp [hres] at h
    | some res =>
      simp only [hres] at h
      simp only [Option.some.injEq, exists_eq_left']
      split at h
      · next hdeferred =>
        obtain ⟨rest, hrest, rfl⟩ := Option.map_eq_some_iff.mp h
        simp [hdeferred]
      · next hhandled =>
        split at h
        · next rows rest hrows hrest =>
          cases h
          simp [ih hrest, hhandled]
        · cases h

/-- There is one report to each file. -/
theorem parseFiles_reports {files : List (String × Content)} {w : Work}
    (h : parseFiles parseFile node files = some w) : w.reports.map reportFile = files.map (·.1) := by
  induction files generalizing w with
  | nil =>
    cases h
    rfl
  | cons f files ih =>
    obtain ⟨name, content⟩ := f
    rw [parseFiles] at h
    cases hres : parseFile name content with
    | none => simp [hres] at h
    | some res =>
      simp only [hres] at h
      split at h
      · obtain ⟨rest, hrest, rfl⟩ := Option.map_eq_some_iff.mp h
        rw [List.map_cons, List.map_cons, ih hrest]
        rfl
      · split at h
        · next rows rest hrows hrest =>
          cases h
          rw [List.map_cons, List.map_cons, ih hrest]
          rfl
        · cases h

end Files

/-- A visit of a drain to a survey: what its host parses with, what it draws from the outside, and the
volume and the window it finds. -/
structure Visit where
  parseFile : Parser
  ticks : Nat → Tick
  before : Drain

namespace Visit

variable (rt : Runtime) (id : String) (files : List (String × Content)) (v : Visit)

def result : Drain × Stage := processSurvey rt v.parseFile id v.ticks v.before

def after : Drain := (v.result rt id).1

/-- The `rows_staged` the visit returns. -/
def rowsStaged : Nat :=
  match (v.result rt id).2 with
  | .finished (.processed rowsStaged _) => rowsStaged
  | .finished (.pqdifPending rowsStaged _) => rowsStaged
  | _ => 0

/-- The visit is to a survey that is in the inbox, in a process of its own, and the file system raises
nothing. -/
structure Regular : Prop where
  faultless : ∀ n, (v.ticks n).fault = none
  listed : (v.before.site.surveys.inbox.lookup id).isSome
  window : Unseen id v.before.dedupe

/-- The files of a live survey all read. -/
def Handles : Prop :=
  ∃ node, v.before.site.db.getNode id = some node ∧ ∀ f ∈ files, Readable rt node v.parseFile f

/-- The files of a survey are left for a host with a converter. -/
def Defers : Prop := ∃ f ∈ files, Deferred v.parseFile f

end Visit

/-- The folders of a survey are the same. -/
structure SameFolders (id : String) (d d' : Drain) : Prop where
  inbox : d'.site.surveys.inbox.lookup id = d.site.surveys.inbox.lookup id
  archive : d'.site.surveys.archive.lookup id = d.site.surveys.archive.lookup id

/-- The visits of drains to a survey, one after the other, with the volume the last one leaves. Between
two of them the volume changes elsewhere. -/
inductive Visits (rt : Runtime) (id : String) (start : Drain) : List Visit → Drain → Prop
  | nil : Visits rt id start [] start
  | snoc {visits : List Visit} {d : Drain} (earlier : Visits rt id start visits d) (v : Visit)
    (regular : v.Regular id) (same : SameFolders id d v.before) :
    Visits rt id start (visits ++ [v]) (v.after rt id)

def totalStaged (rt : Runtime) (id : String) (visits : List Visit) : Nat :=
  (visits.map (Visit.rowsStaged rt id)).sum

/-- A manifest as the upload writes it. -/
structure QueuedManifest (m : Manifest) : Prop where
  status : m.status = some "queued"
  rows : m.rowsStaged = none
  pending : m.pendingFiles = none

theorem surveyManifest_queued (rt : Runtime) (form : SurveyForm) (tier : LocTier) (locRef : Option String)
    (nodeId uploadedUtc : String) (stored : List StoredFile) :
    QueuedManifest (surveyManifest rt form tier locRef nodeId uploadedUtc stored) :=
  ⟨rfl, rfl, rfl⟩

/-- The manifest accounts for the whole survey: for the rows staged over all its visits, with one report
for each file, and with no file pending. -/
structure ManifestComplete (m : Manifest) (total : Nat) (files : List (String × Content)) : Prop where
  rows : m.rowsStaged = some total
  files : ∃ reports, m.files = some (.reports reports) ∧
    (reports.map reportFile).Perm (files.map (·.1))
  pending : m.pendingFiles.getD [] = []

section Visits

variable {rt : Runtime} {id : String} {uploaded : Folder} {m₀ : Manifest} {v : Visit} {visits : List Visit}
  {d : Drain}

/-- Some visit got through the files of the survey and left one of them. -/
def Left (rt : Runtime) (id : String) (uploaded : Folder) (visits : List Visit) : Prop :=
  ∃ v ∈ visits, v.Handles rt id (dataFiles uploaded) ∧ v.Defers (dataFiles uploaded)

/-- Where a survey stands after some visits. -/
inductive Standing (rt : Runtime) (id : String) (uploaded : Folder) (visits : List Visit) (d : Drain) : Prop
  | queued (folder : Untouched id uploaded d) (none : totalStaged rt id visits = 0)
    (unhandled : ∀ v ∈ visits, ¬v.Handles rt id (dataFiles uploaded))
  | pending (m : Manifest) (manifest : d.inboxFile id "manifest.json" = some (.manifest m))
    (unarchived : d.archiveFile id "manifest.json" = none) (status : m.status = some "pqdif_pending")
    (rows : m.rowsStaged = some (totalStaged rt id visits)) (files : m.pendingFiles.getD [] ≠ [])
    (left : Left rt id uploaded visits)
  | processed (m : Manifest) (gone : d.site.surveys.inbox.lookup id = none)
    (manifest : d.archiveFile id "manifest.json" = some (.manifest m))
    (rows : m.rowsStaged = some (totalStaged rt id visits))
    (complete : ManifestComplete m (totalStaged rt id visits) (dataFiles uploaded) ↔
      ¬Left rt id uploaded visits)
  | withdrawn (gone : d.site.surveys.inbox.lookup id = none)
    (unarchived : d.archiveFile id "manifest.json" = none)

theorem Visit.finished (rt : Runtime) (id : String) (v : Visit) :
    ∃ outcome, (v.result rt id).2 = .finished outcome :=
  processSurvey_finished v.ticks v.before

variable (rt) in
theorem Visit.recorded (hregular : v.Regular id) {m : Manifest} {node : Node} {folder : Folder}
    (hmanifest : v.before.readManifest id = some m) (hlive : v.before.site.db.getNode id = some node)
    (hfolder : Untouched id folder v.before) :
    Recorded rt v.parseFile id m node folder v.before.site.tree (v.after rt id) (v.result rt id).2 := by
  have hid : node.nodeId = id := Database.getNode_nodeId hlive
  have hstart : Recorded rt v.parseFile id m node folder v.before.site.tree v.before .start :=
    ⟨rfl, hmanifest, hlive, hfolder, hregular.window⟩
  have hrun : ∀ fuel d stage, Recorded rt v.parseFile id m node folder v.before.site.tree d stage →
      Recorded rt v.parseFile id m node folder v.before.site.tree (run rt v.parseFile id v.ticks fuel d stage).1
        (run rt v.parseFile id v.ticks fuel d stage).2 := by
    intro fuel
    induction fuel with
    | zero => exact fun d stage h => h
    | succ fuel ih => exact fun d stage h => ih _ _ (step_recorded hid (hregular.faultless fuel) h)
  exact hrun _ _ _ hstart

variable (rt) in
theorem Visit.withdrawing (hmanifest : (v.before.readManifest id).isSome)
    (hgone : v.before.site.db.getNode id = none) :
    Withdrawing id v.before.site.tree (v.after rt id) (v.result rt id).2 := by
  have hrun : ∀ fuel d stage, Withdrawing id v.before.site.tree d stage →
      Withdrawing id v.before.site.tree (run rt v.parseFile id v.ticks fuel d stage).1
        (run rt v.parseFile id v.ticks fuel d stage).2 := by
    intro fuel
    induction fuel with
    | zero => exact fun d stage h => h
    | succ fuel ih => exact fun d stage h => ih _ _ (step_withdrawing h)
  exact hrun _ _ .start ⟨rfl, hmanifest, hgone⟩

/-- What one visit makes of a survey with a manifest and a folder. -/
inductive Visited (rt : Runtime) (id : String) (v : Visit) (m : Manifest) (folder : Folder) (total : Nat) : Prop
  | failed (same : Untouched id folder (v.after rt id)) (none : v.rowsStaged rt id = 0)
    (unhandled : ¬v.Handles rt id (dataFiles folder))
  | pending (m' : Manifest) (manifest : (v.after rt id).inboxFile id "manifest.json" = some (.manifest m'))
    (unarchived : (v.after rt id).archiveFile id "manifest.json" = none)
    (status : m'.status = some "pqdif_pending") (rows : m'.rowsStaged = some (total + v.rowsStaged rt id))
    (files : m'.pendingFiles.getD [] ≠ []) (handles : v.Handles rt id (dataFiles folder))
    (defers : v.Defers (dataFiles folder))
  | processed (m' : Manifest) (gone : (v.after rt id).site.surveys.inbox.lookup id = none)
    (manifest : (v.after rt id).archiveFile id "manifest.json" = some (.manifest m'))
    (rows : m'.rowsStaged = some (total + v.rowsStaged rt id)) (files : m'.pendingFiles = m.pendingFiles)
    (reports : ∃ reports, m'.files = some (.reports reports) ∧
      reports.map reportFile = (dataFiles folder).map (·.1))
    (finishes : ¬v.Defers (dataFiles folder))
  | withdrawn (gone : (v.after rt id).site.surveys.inbox.lookup id = none)
    (unarchived : (v.after rt id).archiveFile id "manifest.json" = none)

theorem Handled.handles {node : Node} {folder : Folder} {w : Work}
    (h : Handled rt v.parseFile node folder w) (hlive : v.before.site.db.getNode id = some node) :
    v.Handles rt id (dataFiles folder) :=
  ⟨node, hlive, parseFiles_read.mp ⟨w, h.parsed, h.dated⟩⟩

theorem Handled.defers_iff {node : Node} {folder : Folder} {w : Work}
    (h : Handled rt v.parseFile node folder w) : v.Defers (dataFiles folder) ↔ w.deferred ≠ [] := by
  rw [Ne, parseFiles_deferred h.parsed, Visit.Defers]
  simp only [not_forall, not_not, exists_prop]

/-- A visit stages the rows it returns, and does one of these to the survey. -/
theorem Visit.visited (hregular : v.Regular id) {m : Manifest} {folder : Folder}
    (hmanifest : v.before.readManifest id = some m) (hfolder : Untouched id folder v.before)
    {total : Nat} (htotal : m.rowsStaged.getD 0 = total) :
    Stages rt v.before.site.tree (v.after rt id).site.tree (v.rowsStaged rt id) ∧
      Visited rt id v m folder total := by
  obtain ⟨outcome, hend⟩ := v.finished rt id
  cases hlive : v.before.site.db.getNode id with
  | none =>
    have hgone := v.withdrawing rt (by rw [hmanifest, Option.isSome_some]) hlive
    rw [hend] at hgone
    cases outcome with
    | purgedWithdrawn =>
      obtain ⟨htree, hinbox, harchive⟩ := hgone
      refine ⟨?_, .withdrawn hinbox ?_⟩
      · rw [rowsStaged, hend, htree]
        exact .none rt _
      · rw [Drain.archiveFile, harchive, Option.bind_none]
    | _ => exact hgone.elim
  | some node =>
    have hrecorded := v.recorded rt hregular hmanifest hlive hfolder
    rw [hend] at hrecorded
    cases outcome with
    | purgedWithdrawn => exact hrecorded.elim
    | error =>
      obtain ⟨hstages, hsame, hnone⟩ := hrecorded
      have hrows : v.rowsStaged rt id = 0 := by rw [rowsStaged, hend]
      refine ⟨hrows ▸ hstages, .failed hsame hrows fun hhandles => hnone ?_⟩
      obtain ⟨node', hlive', hread⟩ := hhandles
      obtain rfl := Option.some.inj (hlive.symm.trans hlive')
      obtain ⟨w, hparsed, hdated⟩ := parseFiles_read.mpr hread
      exact ⟨w, hparsed, hdated⟩
    | pqdifPending accepted names =>
      obtain ⟨hstages, w, dups, now, hhandled, hleft, hunarchived, hwritten⟩ := hrecorded
      have hrows : v.rowsStaged rt id = accepted := by rw [rowsStaged, hend]
      refine ⟨hrows ▸ hstages, .pending _ hwritten hunarchived ?_ ?_ ?_ (hhandled.handles hlive)
        (hhandled.defers_iff.mpr hleft)⟩
      · rw [processedManifest, if_neg hleft]
      · rw [hrows, processedManifest, htotal]
      · simp [processedManifest, hleft]
    | processed accepted files =>
      obtain ⟨hstages, w, dups, now, hhandled, hdone, hgone, hwritten⟩ := hrecorded
      have hrows : v.rowsStaged rt id = accepted := by rw [rowsStaged, hend]
      refine ⟨hrows ▸ hstages, .processed _ hgone hwritten ?_ ?_
        ⟨w.reports, rfl, parseFiles_reports hhandled.parsed⟩ ?_⟩
      · rw [hrows, processedManifest, htotal]
      · exact if_pos hdone
      · rw [hhandled.defers_iff]
        exact not_not_intro hdone

theorem totalStaged_snoc (rt : Runtime) (id : String) (visits : List Visit) (v : Visit) :
    totalStaged rt id (visits ++ [v]) = totalStaged rt id visits + v.rowsStaged rt id := by
  simp [totalStaged]

theorem Left.snoc (h : Left rt id uploaded visits) (v : Visit) : Left rt id uploaded (visits ++ [v]) := by
  obtain ⟨u, hu, hleft⟩ := h
  exact ⟨u, List.mem_append_left _ hu, hleft⟩

/-- The next visit, from wherever the survey stands. -/
theorem Standing.visit (hmanifest : uploaded.lookup "manifest.json" = some (.manifest m₀))
    (hqueued : QueuedManifest m₀) (h : Standing rt id uploaded visits d) (hregular : v.Regular id)
    (hsame : SameFolders id d v.before) :
    Stages rt v.before.site.tree (v.after rt id).site.tree (v.rowsStaged rt id) ∧
      Standing rt id uploaded (visits ++ [v]) (v.after rt id) := by
  have harchive : v.before.archiveFile id "manifest.json" = d.archiveFile id "manifest.json" := by
    rw [Drain.archiveFile, hsame.archive]
    rfl
  cases h with
  | queued hfolder hnone hunhandled =>
    have hbefore : Untouched id uploaded v.before :=
      ⟨hsame.inbox.trans hfolder.found, harchive.trans hfolder.unarchived⟩
    have hread : v.before.readManifest id = some m₀ := by
      rw [Drain.readManifest, hbefore.found, Option.bind_some, hmanifest]
    obtain ⟨hstages, hvisited⟩ : _ ∧ Visited rt id v m₀ uploaded 0 :=
      v.visited hregular hread hbefore (by rw [hqueued.rows]; rfl)
    refine ⟨hstages, ?_⟩
    cases hvisited with
    | failed hfolder' hstaged hfails =>
      refine .queued hfolder' (by rw [totalStaged_snoc, hnone, hstaged]) fun u hu => ?_
      rcases List.mem_append.mp hu with hu | hu
      · exact hunhandled u hu
      · rwa [List.mem_singleton.mp hu]
    | pending m' hmanifest' hunarchived hstatus hrows hfiles hhandles hdefers =>
      exact .pending m' hmanifest' hunarchived hstatus (by rw [totalStaged_snoc, hnone, hrows]) hfiles
        ⟨v, List.mem_append_right _ List.mem_cons_self, hhandles, hdefers⟩
    | processed m' hgone hmanifest' hrows hfiles hreports hfinishes =>
      have hrows' : m'.rowsStaged = some (totalStaged rt id (visits ++ [v])) := by
        rw [totalStaged_snoc, hnone, hrows]
      refine .processed m' hgone hmanifest' hrows' (iff_of_true ⟨hrows', ?_, ?_⟩ ?_)
      · obtain ⟨reports, hm', hnames⟩ := hreports
        exact ⟨reports, hm', hnames ▸ List.Perm.refl _⟩
      · rw [hfiles, hqueued.pending]
        rfl
      · rintro ⟨u, hu, hhandles, hdefers⟩
        rcases List.mem_append.mp hu with hu | hu
        · exact hunhandled u hu hhandles
        · rw [List.mem_singleton.mp hu] at hdefers
          exact hfinishes hdefers
    | withdrawn hgone hunarchived => exact .withdrawn hgone hunarchived
  | pending m hwritten hunarchived hstatus hrows hfiles hleft =>
    obtain ⟨folder, hfound⟩ := Option.isSome_iff_exists.mp hregular.listed
    have hbefore : Untouched id folder v.before := ⟨hfound, harchive.trans hunarchived⟩
    have hlookup : folder.lookup "manifest.json" = some (.manifest m) := by
      rwa [Drain.inboxFile, ← hsame.inbox, hfound, Option.bind_some] at hwritten
    have hread : v.before.readManifest id = some m := by
      rw [Drain.readManifest, hfound, Option.bind_some, hlookup]
    obtain ⟨hstages, hvisited⟩ : _ ∧ Visited rt id v m folder (totalStaged rt id visits) :=
      v.visited hregular hread hbefore (by rw [hrows]; rfl)
    refine ⟨hstages, ?_⟩
    cases hvisited with
    | failed hfolder' hstaged hfails =>
      refine .pending m ?_ hfolder'.unarchived hstatus (by rw [totalStaged_snoc, hstaged, hrows, Nat.add_zero]) hfiles
        (hleft.snoc v)
      rw [Drain.inboxFile, hfolder'.found, Option.bind_some, hlookup]
    | pending m' hmanifest' hunarchived' hstatus' hrows' hfiles' hhandles hdefers =>
      exact .pending m' hmanifest' hunarchived' hstatus' (by rw [totalStaged_snoc, hrows']) hfiles'
        (hleft.snoc v)
    | processed m' hgone hmanifest' hrows' hfiles' hreports hfinishes =>
      refine .processed m' hgone hmanifest' (by rw [totalStaged_snoc, hrows']) (iff_of_false ?_ ?_)
      · intro hcomplete
        exact hfiles (hfiles' ▸ hcomplete.pending)
      · exact not_not_intro (hleft.snoc v)
    | withdrawn hgone hunarchived' => exact .withdrawn hgone hunarchived'
  | processed m hgone =>
    have hlisted := hregular.listed
    rw [hsame.inbox, hgone] at hlisted
    cases hlisted
  | withdrawn hgone =>
    have hlisted := hregular.listed
    rw [hsame.inbox, hgone] at hlisted
    cases hlisted

theorem Visits.standing {start : Drain} (hmanifest : uploaded.lookup "manifest.json" = some (.manifest m₀))
    (hqueued : QueuedManifest m₀) (hinbox : start.site.surveys.inbox.lookup id = some uploaded)
    (harchive : start.site.surveys.archive.lookup id = none) (h : Visits rt id start visits d) :
    (∀ v ∈ visits, Stages rt v.before.site.tree (v.after rt id).site.tree (v.rowsStaged rt id)) ∧
      Standing rt id uploaded visits d := by
  induction h with
  | nil =>
    have hstart : Untouched id uploaded start := ⟨hinbox, by rw [Drain.archiveFile, harchive, Option.bind_none]⟩
    exact ⟨fun v hv => absurd hv List.not_mem_nil, .queued hstart rfl fun v hv => absurd hv List.not_mem_nil⟩
  | snoc earlier v hregular hsame ih =>
    obtain ⟨hstages, hstanding⟩ := ih.2.visit hmanifest hqueued hregular hsame
    refine ⟨fun u hu => ?_, hstanding⟩
    rcases List.mem_append.mp hu with hu | hu
    · exact ih.1 u hu
    · rwa [List.mem_singleton.mp hu]

end Visits

/-- The manifest of a processed survey gives the rows staged over all its drains, and accounts for the
whole survey exactly where no drain that got through the files left one of them for another. -/
theorem manifest_complete_iff (rt : Runtime) (id : String) (uploaded : Folder) (m₀ : Manifest)
    (hmanifest : uploaded.lookup "manifest.json" = some (.manifest m₀)) (hqueued : QueuedManifest m₀)
    (start : Drain) (hinbox : start.site.surveys.inbox.lookup id = some uploaded)
    (harchive : start.site.surveys.archive.lookup id = none) (visits : List Visit) (d : Drain)
    (hvisits : Visits rt id start visits d) (m : Manifest)
    (hm : d.inboxFile id "manifest.json" = some (.manifest m) ∨
      d.archiveFile id "manifest.json" = some (.manifest m))
    (hprocessed : m.status = some "processed") :
    (∀ v ∈ visits, Stages rt v.before.site.tree (v.after rt id).site.tree (v.rowsStaged rt id)) ∧
      m.rowsStaged = some (totalStaged rt id visits) ∧
      (ManifestComplete m (totalStaged rt id visits) (dataFiles uploaded) ↔
        ∀ v ∈ visits, v.Handles rt id (dataFiles uploaded) → ¬v.Defers (dataFiles uploaded)) := by
  have hleft : ¬Left rt id uploaded visits ↔
      ∀ v ∈ visits, v.Handles rt id (dataFiles uploaded) → ¬v.Defers (dataFiles uploaded) := by
    simp only [Left, not_exists, not_and]
  obtain ⟨hstages, hstanding⟩ := hvisits.standing hmanifest hqueued hinbox harchive
  rw [← hleft]
  refine ⟨hstages, ?_⟩
  cases hstanding with
  | queued hfolder =>
    rw [Drain.inboxFile, hfolder.found, Option.bind_some, hmanifest, hfolder.unarchived] at hm
    rcases hm with hm | hm
    · cases hm
      exact absurd (hqueued.status.symm.trans hprocessed) (by decide)
    · cases hm
  | pending m' hwritten hunarchived hstatus =>
    rw [hwritten, hunarchived] at hm
    rcases hm with hm | hm
    · cases hm
      exact absurd (hstatus.symm.trans hprocessed) (by decide)
    · cases hm
  | processed m' hgone hwritten hrows hcomplete =>
    rw [Drain.inboxFile, hgone, Option.bind_none, hwritten] at hm
    rcases hm with hm | hm
    · cases hm
    · cases hm
      exact ⟨hrows, hcomplete⟩
  | withdrawn hgone hunarchived =>
    rw [Drain.inboxFile, hgone, Option.bind_none, hunarchived] at hm
    rcases hm with hm | hm <;> cases hm

/-- The inbox folder of an upload, with its files as text. -/
def queuedFolder (files : List (String × String)) : Folder :=
  files.foldl
    (fun folder f => folder.replaceRow f.1 (.raw (f.2.toList.map fun c => UInt8.ofNat c.toNat)))
    (Table.replaceRow ∅ "manifest.json" (.manifest { status := some "queued" }))

def queuedSite (files : List (String × String)) : Site :=
  { Drains.logSite with surveys := { inbox := Table.replaceRow ∅ "n1" (queuedFolder files) } }

/-- The manifest a file holds. -/
def manifestOf : Option Content → Option Manifest
  | some (.manifest m) => some m
  | _ => none

theorem manifestOf_eq {content : Option Content} {m : Manifest} (h : manifestOf content = some m) :
    content = some (.manifest m) := by
  rcases content with _ | _ | _ | _
  · cases h
  · cases h
  · cases h
    rfl
  · cases h

/-- A visit of a host, with a converter or none. -/
def hostVisit (converter : Option Converter) (site : Site) : Visit :=
  ⟨hostParser .ascii converter, fun _ => {}, { site }⟩

theorem hostVisit_regular {converter : Option Converter} {site : Site}
    (hlisted : (site.surveys.inbox.lookup "n1").isSome) : (hostVisit converter site).Regular "n1" where
  faultless _ := rfl
  listed := hlisted
  window _ hk := by cases hk

/-- What a host makes of the manifest in one visit. -/
def archivedManifest (v : Visit) : Option Manifest :=
  manifestOf ((v.after ParserHost.ascii.rt "n1").archiveFile "n1" "manifest.json")

def logVisit : Visit := hostVisit none (queuedSite [("000_log.csv", labelledLog)])

theorem manifest_complete_iff_logVisit :
    ∃ m, archivedManifest logVisit = some m ∧ m.status = some "processed" ∧
      ManifestComplete m 1 (dataFiles (queuedFolder [("000_log.csv", labelledLog)])) := by
  have hstatus : (archivedManifest logVisit).map (·.status) = some (some "processed") := by decide +kernel
  have htotal : totalStaged ParserHost.ascii.rt "n1" [logVisit] = 1 := by decide +kernel
  have hread : ∀ f ∈ dataFiles (queuedFolder [("000_log.csv", labelledLog)]),
      (logVisit.parseFile f.1 f.2).map (·.deferred) = some false := by decide +kernel
  obtain ⟨m, hm, hprocessed⟩ := Option.map_eq_some_iff.mp hstatus
  have hvisits : Visits ParserHost.ascii.rt "n1" logVisit.before [logVisit]
      (logVisit.after ParserHost.ascii.rt "n1") :=
    .snoc .nil logVisit (hostVisit_regular (by decide +kernel)) ⟨rfl, rfl⟩
  have hcomplete := (manifest_complete_iff ParserHost.ascii.rt "n1" _ { status := some "queued" } rfl
    ⟨rfl, rfl, rfl⟩ logVisit.before rfl rfl _ _ hvisits m (Or.inr (manifestOf_eq hm)) hprocessed).2.2.mpr ?_
  · exact ⟨m, hm, hprocessed, htotal ▸ hcomplete⟩
  · rintro v hv - ⟨f, hf, res, hres, hdeferred⟩
    obtain rfl := List.mem_singleton.mp hv
    have hnot := hread f hf
    rw [hres, Option.map_some, hdeferred] at hnot
    cases hnot

/-- A converter that makes one voltage of any file. -/
def dipConverter : Converter :=
  ⟨"pqdif2csv", fun _ => .converted "timestamp,phase,channel,value\n2026-01-01T00:00:00Z,L2,voltage,241"⟩

/-- A log and a PQDIF file are drained without a converter. -/
def deferringVisit : Visit :=
  hostVisit none (queuedSite [("000_log.csv", labelledLog), ("001_dip.pqd", "")])

/-- The PQDIF file that was left is drained with one. -/
def convertingVisit : Visit :=
  hostVisit (some dipConverter) (deferringVisit.after ParserHost.ascii.rt "n1").site

/-- The manifest of a survey that was deferred once names its pending file for ever. -/
theorem pending_file_remains :
    ¬∀ (host : ParserHost) (id : String) (uploaded : Folder) (m₀ : Manifest) (start : Drain)
        (visits : List Visit) (d : Drain) (m : Manifest),
        uploaded.lookup "manifest.json" = some (.manifest m₀) → QueuedManifest m₀ →
        start.site.surveys.inbox.lookup id = some uploaded → start.site.surveys.archive.lookup id = none →
        (∀ v ∈ visits, ∃ converter, v.parseFile = hostParser host converter) →
        Visits host.rt id start visits d → d.archiveFile id "manifest.json" = some (.manifest m) →
        m.status = some "processed" → ManifestComplete m (totalStaged host.rt id visits) (dataFiles uploaded) := by
  intro h
  have hstatus : (archivedManifest convertingVisit).map (fun m => (m.status, m.pendingFiles)) =
      some (some "processed", some ["001_dip.pqd"]) := by decide +kernel
  obtain ⟨m, hm, hfields⟩ := Option.map_eq_some_iff.mp hstatus
  obtain ⟨hprocessed, hpending⟩ := Prod.mk.inj hfields
  have hfirst : Visits ParserHost.ascii.rt "n1" deferringVisit.before [deferringVisit]
      (deferringVisit.after ParserHost.ascii.rt "n1") :=
    .snoc .nil _ (hostVisit_regular (by decide +kernel)) ⟨rfl, rfl⟩
  have hvisits : Visits ParserHost.ascii.rt "n1" deferringVisit.before [deferringVisit, convertingVisit]
      (convertingVisit.after ParserHost.ascii.rt "n1") :=
    .snoc hfirst _ (hostVisit_regular (by decide +kernel)) ⟨rfl, rfl⟩
  have hhosts : ∀ v ∈ [deferringVisit, convertingVisit], ∃ converter, v.parseFile = hostParser .ascii converter := by
    intro v hv
    rcases List.mem_pair.mp hv with rfl | rfl
    · exact ⟨none, rfl⟩
    · exact ⟨some dipConverter, rfl⟩
  have hcomplete := h .ascii "n1" _ { status := some "queued" } deferringVisit.before _ _ m rfl ⟨rfl, rfl, rfl⟩
    rfl rfl hhosts hvisits (manifestOf_eq hm) hprocessed
  have hnone := hcomplete.pending
  rw [hpending] at hnone
  cases hnone

end GridWitness.Survey
