import GridWitness.Server.RetryLaws
import GridWitness.Survey.Crash
import GridWitness.Survey.WholeLaws

namespace GridWitness.Survey

open Library Server

/-- A parser yields rows from a file, and every consented one of them has a property. -/
def EachRow (node : Node) (parseFile : Parser) (name : String) (content : Content)
    (P : ElectricalRow → Prop) : Prop :=
  ∃ res, parseFile name content = some res ∧ res.deferred = false ∧
    ∀ pr ∈ res.rows, ∀ row, pr.validate = some row → (∀ c ∈ row.presentChannels, c ∈ node.channels) →
      P row

theorem EachRow.mono {node : Node} {parseFile : Parser} {name : String} {content : Content}
    {P Q : ElectricalRow → Prop} (h : EachRow node parseFile name content P)
    (hPQ : ∀ row, P row → Q row) : EachRow node parseFile name content Q := by
  obtain ⟨res, hres, hhandled, hrows⟩ := h
  exact ⟨res, hres, hhandled, fun pr hpr row hrow hchannels => hPQ row (hrows pr hpr row hrow hchannels)⟩

/-- Staging holds a row with the node, the timestamp and the phase of a parsed row. -/
def StagedRow (node : Node) (tree : StagingTree) (row : ElectricalRow) : Prop :=
  ∃ l, tree.Has .electrical l ∧
    l.key .electrical = [.text node.nodeId, .text row.tsUtc, .text row.phase.value]

theorem StagedRow.of_appends {P : Kind → Line → Prop} {node : Node} {tree tree' : StagingTree}
    {row : ElectricalRow} (h : StagedRow node tree row) (happends : StagingTree.Appends P tree tree') :
    StagedRow node tree' row := by
  obtain ⟨l, hl, hkey⟩ := h
  exact ⟨l, happends.has hl, hkey⟩

theorem stagedRows_yields {node : Node} {rows : List ParsedRow} {staged : List Row}
    (h : stagedRows node rows = some staged) {pr : ParsedRow} (hpr : pr ∈ rows) {row : ElectricalRow}
    (hrow : pr.validate = some row) (hchannels : ∀ c ∈ row.presentChannels, c ∈ node.channels) :
    projectElectrical row node ∈ staged := by
  induction rows generalizing staged with
  | nil => cases hpr
  | cons a rows ih =>
    simp only [stagedRows] at h
    split at h
    · next first rest hfirst hrest =>
      rcases List.mem_cons.mp hpr with rfl | hpr
      · obtain rfl : first = row := Option.some.inj (hfirst.symm.trans hrow)
        rw [if_pos (by simpa [List.filter_eq_nil_iff] using hchannels)] at h
        cases h
        exact List.mem_cons_self
      · split at h
        · cases h
          exact List.mem_cons_of_mem _ (ih hrest hpr)
        · cases h
          exact ih hrest hpr
    · cases h

/-- After the parse every data file is handled or deferred, and the consented rows of a handled one
are among those to be staged. -/
theorem parseFiles_yields {parseFile : Parser} {node : Node} {files : List (String × Content)}
    {w : Work} (h : parseFiles parseFile node files = some w) :
    (∀ f ∈ files, f.1 ∈ w.handled ∨ f.1 ∈ w.deferred) ∧
      ∀ name ∈ w.handled, ∃ content, (name, content) ∈ files ∧
        EachRow node parseFile name content (projectElectrical · node ∈ w.staged) := by
  induction files generalizing w with
  | nil =>
    cases h
    simp
  | cons f files ih =>
    obtain ⟨name, content⟩ := f
    simp only [parseFiles] at h
    split at h
    · cases h
    · next res hres =>
      split at h
      · obtain ⟨rest, hrest, rfl⟩ := Option.map_eq_some_iff.mp h
        obtain ⟨hcovers, hyields⟩ := ih hrest
        refine ⟨List.forall_mem_cons.mpr ⟨Or.inr List.mem_cons_self, fun f hf => ?_⟩, fun n hn => ?_⟩
        · exact (hcovers f hf).imp_right (List.mem_cons_of_mem _)
        · obtain ⟨content, hmem, hrows⟩ := hyields n hn
          exact ⟨content, List.mem_cons_of_mem _ hmem, hrows⟩
      · next hhandled =>
        split at h
        · next rows rest hrows hrest =>
          cases h
          obtain ⟨hcovers, hyields⟩ := ih hrest
          refine ⟨List.forall_mem_cons.mpr ⟨Or.inl List.mem_cons_self, fun f hf => ?_⟩, fun n hn => ?_⟩
          · exact (hcovers f hf).imp_left (List.mem_cons_of_mem _)
          · rcases List.mem_cons.mp hn with rfl | hn
            · refine ⟨content, List.mem_cons_self, res, hres, by simpa using hhandled, ?_⟩
              intro pr hpr row hrow hchannels
              exact List.mem_append_left _ (stagedRows_yields hrows hpr hrow hchannels)
            · obtain ⟨content, hmem, hrows⟩ := hyields n hn
              exact ⟨content, List.mem_cons_of_mem _ hmem, hrows.mono fun _ => List.mem_append_right _⟩
        · cases h

theorem mem_dataFiles {inbox : Folder} {name : String} {content : Content} :
    (name, content) ∈ dataFiles inbox ↔ inbox.lookup name = some content ∧ name ≠ "manifest.json" := by
  simp only [dataFiles, List.mem_filterMap, List.mem_insertionSort, List.mem_filter,
    decide_eq_true_eq, Option.map_eq_some_iff, Prod.mk.injEq]
  constructor
  · rintro ⟨n, ⟨-, hne⟩, c, hlookup, rfl, rfl⟩
    exact ⟨hlookup, hne⟩
  · rintro ⟨hlookup, hne⟩
    have hkey : name ∈ inbox.keys := AList.mem_keys.mp (AList.lookup_isSome.mp (by rw [hlookup]; rfl))
    exact ⟨name, ⟨hkey, hne⟩, content, hlookup, rfl, rfl⟩

/-- The window holds no key of a node. -/
def Unseen (id : String) (d : Deduper) : Prop := ∀ k ∈ d.seen, k.head? ≠ some (.text id)

theorem SurveyRow.head {node : Node} {r : Row} (h : SurveyRow node r) :
    (dedupeKey StagingWriter.electricalKey r).head? = some (.text node.nodeId) := by
  obtain ⟨row, rfl, -⟩ := h
  rfl

/-- The write of one survey brings no key of another node into the window. -/
theorem write_unseen (rt : Runtime) (fault : Option AppendFault) {w : StagingWriter}
    {rows : List Row} {node : Node} {id : String} (h : Unseen id w.dedupe)
    (hrows : ∀ r ∈ rows, SurveyRow node r) (hne : node.nodeId ≠ id) :
    Unseen id (StagingWriter.writeElectrical rt fault w rows).1.dedupe := by
  intro k hk
  rcases Deduper.filterNew_seen StagingWriter.electricalKey hk with hk | ⟨r, hr, rfl⟩
  · exact h k hk
  · rw [(hrows r (Deduper.filterNew_unique_mem _ hr)).head]
    intro heq
    cases heq
    exact hne rfl

/-- A completed write stages the keys of all its rows, where the window knew none of them. -/
theorem write_staged (rt : Runtime) (fault : Option AppendFault) {w : StagingWriter}
    {rows : List Row} {node : Node} (hunseen : Unseen node.nodeId w.dedupe)
    (hrows : ∀ r ∈ rows, SurveyRow node r)
    (hdone : (StagingWriter.writeElectrical rt fault w rows).2.isSome) {row : ElectricalRow}
    (hrow : projectElectrical row node ∈ rows) :
    StagedRow node (StagingWriter.writeElectrical rt fault w rows).1.tree row := by
  rcases Deduper.filterNew_covers StagingWriter.electricalKey (d := w.dedupe) hrow with hk | ⟨u, hu, hkey⟩
  · exact absurd (hrows _ hrow).head (hunseen _ hk)
  · obtain ⟨urow, rfl, -⟩ := hrows u (Deduper.filterNew_unique_mem _ hu)
    have hline := Kind.csvLine_ne_header (projectElectrical_projected urow node).numeric
    have hhas : (StagingWriter.writeElectrical rt fault w rows).1.tree.Has .electrical _ :=
      StagingWriter.write_has hdone hu hline
    refine ⟨_, hhas, ?_⟩
    rw [Kind.csvLine_key]
    exact hkey

section Survey

variable (id : String) (node : Node) (parseFile : Parser) (name : String) (content : Content)

/-- A file of the survey that is not moved yet is due or deferred, and where it is due the consented
rows of it are staged. -/
structure Due (w : Work) (remaining : List String) (d : Drain) : Prop where
  covers : (d.inboxFile id name).isSome → name ∈ remaining ∨ name ∈ w.deferred
  staged : name ∈ remaining → EachRow node parseFile name content (StagedRow node d.site.tree)

/-- What a file of a live survey is owed at each stage of it. -/
def Owed (d : Drain) : Stage → Prop
  | .start => Unseen id d.dedupe
  | .described _ => Unseen id d.dedupe
  | .withdrawn => False
  | .purging => False
  | .loaded _ current => current = node ∧ Unseen id d.dedupe
  | .parsed _ w => Unseen id d.dedupe ∧ (∀ r ∈ w.staged, SurveyRow node r) ∧
      ((d.inboxFile id name).isSome → name ∈ w.handled ∨ name ∈ w.deferred) ∧
      (name ∈ w.handled → EachRow node parseFile name content (projectElectrical · node ∈ w.staged))
  | .staged _ w _ _ => Due id node parseFile name content w w.handled d
  | .archiving _ w _ _ => Due id node parseFile name content w w.handled d
  | .moving _ w _ _ remaining => Due id node parseFile name content w remaining d
  | .cleaning _ _ => d.inboxFile id name = none
  | .finished _ => True

/-- A file of a live survey is in the inbox, or it is in the archive and no longer in the inbox. -/
structure Kept (d : Drain) : Prop where
  live : d.site.db.getNode id = some node
  here : d.inboxFile id name = some content ∨
    d.inboxFile id name = none ∧ d.archiveFile id name = some content

end Survey

variable {rt : Runtime} {parseFile : Parser} {id name : String} {node : Node} {content : Content}
  {d d' : Drain} {stage stage' : Stage} {w : Work} {remaining : List String}

theorem Due.of_files (h : Due id node parseFile name content w remaining d)
    (hinbox : d'.inboxFile id name = d.inboxFile id name) (htree : d'.site.tree = d.site.tree) :
    Due id node parseFile name content w remaining d' where
  covers hfile := h.covers (hinbox ▸ hfile)
  staged hname := by
    rw [htree]
    exact h.staged hname

theorem Kept.of_files (h : Kept id node name content d) (hdb : d'.site.db = d.site.db)
    (hinbox : d'.inboxFile id name = d.inboxFile id name)
    (harchive : d'.archiveFile id name = d.archiveFile id name) : Kept id node name content d' where
  live := by rw [hdb, h.live]
  here := by
    rw [hinbox, harchive]
    exact h.here

/-- What the inbox holds under the name of a kept file is the file. -/
theorem Kept.content_eq {c : Content} (h : Kept id node name content d)
    (hc : d.inboxFile id name = some c) : c = content := by
  rcases h.here with hin | ⟨hnone, -⟩
  · exact Option.some.inj (hc.symm.trans hin)
  · rw [hnone] at hc
    cases hc

theorem movedFile_finished (stage : Stage) (outcome : Outcome) :
    movedFile stage (.finished outcome) = none := by
  cases stage with
  | moving m w accepted dups remaining => cases remaining <;> rfl
  | _ => rfl

/-- Parsing the data files of the survey reads a kept file, or defers it. -/
theorem Kept.parse {inbox : Folder} (h : Kept id node name content d) (hplain : name ≠ "manifest.json")
    (hfound : d.site.surveys.inbox.lookup id = some inbox)
    (hparsed : parseFiles parseFile node (dataFiles inbox) = some w) :
    ((d.inboxFile id name).isSome → name ∈ w.handled ∨ name ∈ w.deferred) ∧
      (name ∈ w.handled → EachRow node parseFile name content (projectElectrical · node ∈ w.staged)) := by
  obtain ⟨hcovers, hyields⟩ := parseFiles_yields hparsed
  have hfile : d.inboxFile id name = inbox.lookup name := by
    rw [Drain.inboxFile, hfound, Option.bind_some]
  refine ⟨fun hsome => ?_, fun hname => ?_⟩
  · obtain ⟨c, hc⟩ := Option.isSome_iff_exists.mp hsome
    exact hcovers (name, c) (mem_dataFiles.mpr ⟨hfile.symm.trans hc, hplain⟩)
  · obtain ⟨c, hc, hrows⟩ := hyields name hname
    obtain rfl := h.content_eq (hfile.trans (mem_dataFiles.mp hc).1)
    exact hrows

/-- A file is moved with its bytes, and only when its rows are staged. -/
theorem Kept.move {moved : String} (h : Kept id node name content d)
    (hdue : Due id node parseFile name content w (moved :: remaining) d)
    (hmoved : d.moveFile id moved = some d') :
    Kept id node name content d' ∧ Due id node parseFile name content w remaining d' ∧
      (moved = name → EachRow node parseFile name content (StagedRow node d'.site.tree)) ∧
      (moved = name ∨ d'.archiveFile id name = d.archiveFile id name) := by
  obtain ⟨hdb, htree, -⟩ := Drain.moveFile_frame hmoved
  obtain ⟨c, hc, -, hinbox, harchive⟩ := Drain.moveFile_file hmoved
  have hin := hinbox name
  have hout := harchive name
  have hstaged : name ∈ moved :: remaining →
      EachRow node parseFile name content (StagedRow node d'.site.tree) := by
    rw [htree]
    exact hdue.staged
  have hlater : name ∈ remaining →
      EachRow node parseFile name content (StagedRow node d'.site.tree) := fun hmem =>
    hstaged (List.mem_cons_of_mem _ hmem)
  by_cases hname : name = moved
  · subst hname
    rw [if_pos rfl] at hin hout
    rw [h.content_eq hc] at hout
    have hcovers : (d'.inboxFile id name).isSome → name ∈ remaining ∨ name ∈ w.deferred := by
      simp [hin]
    exact ⟨⟨hdb ▸ h.live, .inr ⟨hin, hout⟩⟩, ⟨hcovers, hlater⟩, fun _ => hstaged List.mem_cons_self, .inl rfl⟩
  · rw [if_neg hname] at hin hout
    have hcovers : (d'.inboxFile id name).isSome → name ∈ remaining ∨ name ∈ w.deferred := fun hsome =>
      (hdue.covers (hin ▸ hsome)).imp_left fun hmem => (List.mem_cons.mp hmem).resolve_left hname
    exact ⟨h.of_files hdb hin hout, ⟨hcovers, hlater⟩, fun heq => absurd heq.symm hname, .inr hout⟩

/-- What one effect does to a file of its survey. -/
theorem own_effect (h : Effect rt parseFile id d stage d' stage') (hplain : name ≠ "manifest.json")
    (hextracted : ∀ now, name ≠ extractedName now) (hkept : Kept id node name content d)
    (howes : Owed id node parseFile name content d stage) :
    Kept id node name content d' ∧ Owed id node parseFile name content d' stage' ∧
      (movedFile stage stage' = some name →
        EachRow node parseFile name content (StagedRow node d'.site.tree)) ∧
      (movedFile stage stage' = some name ∨ d'.archiveFile id name = d.archiveFile id name) := by
  -- most effects move nothing
  have hnone : none = some name → EachRow node parseFile name content
      (StagedRow node d'.site.tree) := fun heq => by cases heq
  cases h with
  | fail =>
    refine ⟨hkept, trivial, fun hmoved => ?_, .inr rfl⟩
    rw [movedFile_finished] at hmoved
    cases hmoved
  | describe => exact ⟨hkept, howes, hnone, .inr rfl⟩
  | load hlive => exact ⟨hkept, ⟨Option.some.inj (hlive.symm.trans hkept.live), howes⟩, hnone, .inr rfl⟩
  | withdraw hgone => rw [hkept.live] at hgone; cases hgone
  | purgeInbox => cases howes
  | purgeArchive => cases howes
  | @parse inbox _ m current w hfound hparsed =>
    obtain ⟨rfl, hunseen⟩ := howes
    obtain ⟨hcovers, hyields⟩ := hkept.parse hplain hfound hparsed
    exact ⟨hkept, ⟨hunseen, parseFiles_surveyRow hparsed, hcovers, hyields⟩, hnone, .inr rfl⟩
  | write m w fault result hwritten hnext =>
    obtain ⟨hunseen, hrows, hcovers, hyields⟩ := howes
    subst hnext
    refine ⟨⟨hkept.live, hkept.here⟩, ?_, hnone, .inr rfl⟩
    cases result with
    | none => trivial
    | some counts =>
      refine ⟨hcovers, fun hname => (hyields hname).mono fun row hrow => ?_⟩
      have hid : node.nodeId = id := Database.getNode_nodeId hkept.live
      have hstaged := write_staged rt fault (w := ⟨d.site.tree, d.dedupe⟩)
        (hid ▸ hunseen) hrows (by rw [hwritten]; rfl) hrow
      rwa [hwritten] at hstaged
  | makeArchive =>
    refine ⟨hkept.of_files rfl rfl (Drain.makeArchive_file name), howes.of_files rfl rfl, hnone, .inr ?_⟩
    exact Drain.makeArchive_file name
  | skip => exact ⟨hkept, howes, hnone, .inr rfl⟩
  | extract _ hwritten =>
    obtain ⟨hdb, htree, -, hinbox⟩ := Drain.writeArchive_frame hwritten
    have hin : d'.inboxFile id name = d.inboxFile id name := by rw [Drain.inboxFile, hinbox]; rfl
    have harchive := Drain.writeArchive_file hwritten name
    rw [if_neg (hextracted _)] at harchive
    exact ⟨hkept.of_files hdb hin harchive, howes.of_files hin htree, hnone, .inr harchive⟩
  | move hmoved =>
    obtain ⟨hkept', hdue, hstaged, harchive⟩ := hkept.move howes hmoved
    exact ⟨hkept', hdue, fun heq => hstaged (Option.some.inj heq),
      harchive.imp_left fun heq => congrArg some heq⟩
  | record hdone hwritten =>
    obtain ⟨hdb, htree, -, hinbox⟩ := Drain.writeArchive_frame hwritten
    have hin : d'.inboxFile id name = d.inboxFile id name := by rw [Drain.inboxFile, hinbox]; rfl
    have harchive := Drain.writeArchive_file hwritten name
    rw [if_neg hplain] at harchive
    refine ⟨hkept.of_files hdb hin harchive, hin.trans ?_, hnone, .inr harchive⟩
    -- nothing is due or deferred any more
    by_contra hsome
    have hdue := howes.covers (Option.ne_none_iff_isSome.mp hsome)
    rw [hdone] at hdue
    exact hdue.elim List.not_mem_nil List.not_mem_nil
  | pend _ hwritten =>
    obtain ⟨hdb, -, -, harchive⟩ := Drain.writeInbox_frame hwritten
    have hin := Drain.writeInbox_file hwritten name
    rw [if_neg hplain] at hin
    have hout : d'.archiveFile id name = d.archiveFile id name := by rw [Drain.archiveFile, harchive]; rfl
    exact ⟨hkept.of_files hdb hin hout, trivial, hnone, .inr hout⟩
  | clean =>
    have hin : d.inboxFile id name = none := howes
    have hgone : (d.withInbox (d.site.surveys.inbox.deleteRow id)).inboxFile id name = none := by
      simp [Drain.inboxFile, Drain.withInbox, Table.lookup_deleteRow]
    exact ⟨hkept.of_files rfl (hgone.trans hin.symm) rfl, trivial, hnone, .inr rfl⟩
  | done => exact ⟨hkept, trivial, hnone, .inr rfl⟩

/-- The effects of a survey only add to staging. -/
theorem Effect.appends (h : Effect rt parseFile id d stage d' stage') :
    StagingTree.Appends (fun _ _ => True) d.site.tree d'.site.tree := by
  rcases h.tree_eq with heq | ⟨m, w, fault, -, heq⟩
  · rw [heq]
    exact .refl
  · rw [heq]
    exact (StagingWriter.write_appends rt .electrical fault ⟨d.site.tree, d.dedupe⟩ w.staged).mono
      fun _ _ _ => trivial

/-- The survey of another node leaves the window free of the node's keys. -/
theorem other_unseen (h : Effect rt parseFile id d stage d' stage') {other : String}
    (hstage : stage.Holds fun node => d.site.db.getNode id = some node) (hne : id ≠ other)
    (hunseen : Unseen other d.dedupe) : Unseen other d'.dedupe := by
  cases h with
  | write m w fault result hwritten _ =>
    obtain ⟨node, hnode, hrows⟩ := hstage
    have hwrite := write_unseen rt fault (w := ⟨d.site.tree, d.dedupe⟩) hunseen hrows
      (Database.getNode_nodeId hnode ▸ hne)
    rwa [hwritten] at hwrite
  | extract _ h => rwa [(Drain.writeArchive_frame h).2.2.1]
  | record _ h => rwa [(Drain.writeArchive_frame h).2.2.1]
  | pend _ h => rwa [(Drain.writeInbox_frame h).2.2.1]
  | move h => rwa [(Drain.moveFile_frame h).2.2]
  | _ => exact hunseen

namespace Drains

variable (id : String) (node : Node) (name : String) (content : Content)

/-- A listed survey is processed once in a drain, with a window that knows no key of its node. -/
def Turn (x : Drains) : DrainStage → Prop
  | .idle => True
  | .draining remaining => remaining.Nodup ∧ (id ∈ remaining → Unseen id x.drain.dedupe)
  | .survey j remaining stage =>
    (j :: remaining).Nodup ∧ (id ∈ remaining → Unseen id x.drain.dedupe) ∧
      (j = id → Owed id node x.parseFile name content x.drain stage) ∧
      (j ≠ id → stage.Holds fun node => x.drain.site.db.getNode j = some node)

/-- The state of a file of a live survey across drains. -/
structure Safe (x : Drains) : Prop where
  kept : Kept id node name content x.drain
  recorded : (x.drain.archiveFile id name).isSome → ∃ parseFile, (id, name, parseFile) ∈ x.archivedBy
  staged : ∀ parseFile, (id, name, parseFile) ∈ x.archivedBy →
    EachRow node parseFile name content (StagedRow node x.drain.site.tree)
  turn : Turn id node name content x x.stage

variable {id node name content} {x : Drains}

theorem start_safe {site : Site} (parseFile : Parser) (hlive : site.db.getNode id = some node)
    (hinbox : Drain.inboxFile { site } id name = some content)
    (harchive : Drain.archiveFile { site } id name = none) :
    Safe id node name content (start site parseFile) where
  kept := ⟨hlive, Or.inl hinbox⟩
  recorded h := by
    rw [start, harchive] at h
    cases h
  staged _ h := by cases h
  turn := trivial

theorem survey_safe (hx : Safe id node name content x) (rt : Runtime) (tick : Tick)
    (hplain : name ≠ "manifest.json") (hextracted : ∀ now, name ≠ extractedName now) {j : String}
    {remaining : List String} {stage : Stage} (hturn : Turn id node name content x (.survey j remaining stage)) :
    let next := Survey.step rt x.parseFile j tick x.drain stage
    Safe id node name content
      { x with
        drain := next.1
        stage := .survey j remaining next.2
        archivedBy := ((movedFile stage next.2).map (j, ·, x.parseFile)).toList ++ x.archivedBy } := by
  intro next
  have heffect : Effect rt x.parseFile j x.drain stage next.1 next.2 := step_effect ..
  generalize next = next at heffect
  obtain ⟨d', stage'⟩ := next
  obtain ⟨hnodup, hunseen, hown, hother⟩ := hturn
  have hstaged : ∀ parseFile, (id, name, parseFile) ∈ x.archivedBy →
      EachRow node parseFile name content (StagedRow node d'.site.tree) := fun parseFile hmem =>
    (hx.staged parseFile hmem).mono fun row hrow => hrow.of_appends heffect.appends
  by_cases hj : j = id
  · subst hj
    obtain ⟨hkept, howed, hmoved, harchived⟩ := own_effect heffect hplain hextracted hx.kept (hown rfl)
    refine ⟨hkept, fun hsome => ?_, fun parseFile hmem => ?_, hnodup, fun hmem => ?_, fun _ => howed, ?_⟩
    · rcases harchived with heq | heq
      · exact ⟨x.parseFile, by simp [heq]⟩
      · obtain ⟨parseFile, hmem⟩ := hx.recorded (heq ▸ hsome)
        exact ⟨parseFile, List.mem_append_right _ hmem⟩
    · rcases List.mem_append.mp hmem with hmem | hmem
      · simp only [Option.mem_toList, Option.map_eq_some_iff, Prod.mk.injEq] at hmem
        obtain ⟨moved, hname, -, rfl, rfl⟩ := hmem
        exact hmoved hname
      · exact hstaged parseFile hmem
    · exact absurd hmem (List.nodup_cons.mp hnodup).1
    · exact fun hne => absurd rfl hne
  · have hfolders := heffect.other (Ne.symm hj)
    have hin : d'.inboxFile id name = x.drain.inboxFile id name := by
      rw [Drain.inboxFile, hfolders.1]
      rfl
    have hout : d'.archiveFile id name = x.drain.archiveFile id name := by
      rw [Drain.archiveFile, hfolders.2]
      rfl
    -- what this step moved is a file of the other survey
    have hother' : ∀ parseFile, (id, name, parseFile) ∈
        ((movedFile stage stage').map (j, ·, x.parseFile)).toList ++ x.archivedBy ↔
          (id, name, parseFile) ∈ x.archivedBy := by
      intro parseFile
      simp [hj]
    refine ⟨hx.kept.of_files heffect.db_eq hin hout, fun hsome => ?_, fun parseFile hmem => ?_, hnodup,
      fun hmem => other_unseen heffect (hother hj) hj (hunseen hmem), fun heq => absurd heq hj, fun _ => ?_⟩
    · obtain ⟨parseFile, hmem⟩ := hx.recorded (hout ▸ hsome)
      exact ⟨parseFile, (hother' parseFile).mpr hmem⟩
    · exact hstaged parseFile ((hother' parseFile).mp hmem)
    · have hdb : d'.site.db = x.drain.site.db := heffect.db_eq
      have hholds := heffect.holds (fun _ hnode => hnode) (hother hj)
      simpa only [hdb] using hholds

theorem step_safe (hx : Safe id node name content x) (rt : Runtime) (hplain : name ≠ "manifest.json")
    (hextracted : ∀ now, name ≠ extractedName now) (e : DrainEvent) :
    Safe id node name content (x.step rt e) := by
  cases e with
  | start parseFile =>
    simp only [step]
    split
    · refine ⟨⟨hx.kept.live, hx.kept.here⟩, hx.recorded, hx.staged, ?_, fun _ k hk => ?_⟩
      · exact (List.perm_insertionSort _ _).nodup_iff.mpr (AList.keys_nodup _)
      · cases hk
    · exact hx
  | stop => exact ⟨hx.kept, hx.recorded, hx.staged, trivial⟩
  | effect tick =>
    have hturn := hx.turn
    simp only [step, effect]
    split
    · exact hx
    · exact ⟨hx.kept, hx.recorded, hx.staged, trivial⟩
    · next j remaining hstage =>
      rw [hstage] at hturn
      obtain ⟨hnodup, hunseen⟩ := hturn
      refine ⟨hx.kept, hx.recorded, hx.staged, hnodup, fun hmem => ?_, fun hj => ?_, fun _ => trivial⟩
      · exact hunseen (List.mem_cons_of_mem _ hmem)
      · exact hunseen (hj ▸ List.mem_cons_self)
    · next j remaining outcome hstage =>
      rw [hstage] at hturn
      exact ⟨hx.kept, hx.recorded, hx.staged, (List.nodup_cons.mp hturn.1).2, hturn.2.1⟩
    · next j remaining stage _ hstage =>
      rw [hstage] at hturn
      exact survey_safe hx rt tick hplain hextracted hturn

/-- The upload of a survey is complete: its node is live, and every file of it is whole in the inbox. -/
structure Queued (job : Job) (node : Node) (site : Site) : Prop where
  live : site.db.getNode job.id = some node
  inbox : ∀ f ∈ job.whole, Drain.inboxFile { site } job.id f.1 = some (.raw f.2)
  archive : ∀ f ∈ job.whole, Drain.archiveFile { site } job.id f.1 = none

/-- Wherever its drains are stopped, the worker keeps every file of a survey in one of the two folders,
and it archives a file only after it has staged the consented rows its drain parsed from it. -/
theorem crash_safe (rt : Runtime) (job : Job) (node : Node) (site : Site)
    (hqueued : Queued job node site) (parseFile : Parser) (events : List DrainEvent) :
    let x := events.foldl (step rt) (start site parseFile)
    ∀ f ∈ job.whole,
      (x.drain.inboxFile job.id f.1 = some (.raw f.2) ∨ x.drain.archiveFile job.id f.1 = some (.raw f.2)) ∧
      ((x.drain.archiveFile job.id f.1).isSome →
        ∃ parseFile, (job.id, f.1, parseFile) ∈ x.archivedBy) ∧
      ∀ parseFile, (job.id, f.1, parseFile) ∈ x.archivedBy →
        EachRow node parseFile f.1 (.raw f.2) (StagedRow node x.drain.site.tree) := by
  intro x f hf
  obtain ⟨hplain, hextracted⟩ := job.plain f.1 (by
    obtain ⟨g, hg, rfl⟩ := List.mem_map.mp hf
    exact List.mem_map_of_mem hg)
  have hstart := start_safe parseFile hqueued.live (hqueued.inbox f hf) (hqueued.archive f hf)
  have hx : Safe job.id node f.1 (.raw f.2) x :=
    Trace.foldl_invariant (I := Safe job.id node f.1 (.raw f.2))
      (fun _ e hx => step_safe hx rt hplain hextracted e) hstart events
  exact ⟨hx.kept.here.imp_right And.right, hx.recorded, hx.staged⟩

/-- The volume once the log is uploaded. -/
def logSite : Site :=
  ((List.replicate 6 .upload).foldl (fun x e => x.step Intake.logJob .ascii e)
    (Intake.start {})).drain.site

def effects (n : Nat) : List DrainEvent :=
  List.replicate n (.effect ⟨"2026-07-10T09:30:00Z", none⟩)

def logRow : Parser := fun _ _ =>
  some ⟨[⟨"2026-01-01T00:00:00Z", "1p", some (.fin (2401 / 10)), some (.fin (5001 / 100))⟩], 1, 1, 0,
    none, false⟩

/-- A drain that is stopped once it has staged the row, and a second one. -/
def stoppedDrain : List DrainEvent := .start logRow :: effects 5 ++ .stop :: .start logRow :: effects 12

theorem logSite_queued : ∃ node, Queued Intake.logJob node logSite := by
  obtain ⟨node, hlive⟩ : ∃ node, logSite.db.getNode Intake.logJob.id = some node :=
    Option.isSome_iff_exists.mp (by decide +kernel)
  have hwhole : Intake.logJob.whole = [("000_log.csv", Intake.logBytes)] := by decide +kernel
  have hinbox : Drain.inboxFile { site := logSite } Intake.logJob.id "000_log.csv" =
      some (.raw Intake.logBytes) := by rfl
  have harchive : Drain.archiveFile { site := logSite } Intake.logJob.id "000_log.csv" = none := by rfl
  refine ⟨node, hlive, ?_, ?_⟩
  · rw [hwhole]
    simpa using hinbox
  · rw [hwhole]
    simpa using harchive

theorem crash_safe_stoppedDrain : ∃ node,
    let x := stoppedDrain.foldl (step .ascii) (start logSite logRow)
    (x.drain.archiveFile Intake.logJob.id "000_log.csv").isSome ∧
    ∀ f ∈ Intake.logJob.whole,
      (x.drain.inboxFile Intake.logJob.id f.1 = some (.raw f.2) ∨
        x.drain.archiveFile Intake.logJob.id f.1 = some (.raw f.2)) ∧
      ((x.drain.archiveFile Intake.logJob.id f.1).isSome →
        ∃ parseFile, (Intake.logJob.id, f.1, parseFile) ∈ x.archivedBy) ∧
      ∀ parseFile, (Intake.logJob.id, f.1, parseFile) ∈ x.archivedBy →
        EachRow node parseFile f.1 (.raw f.2) (StagedRow node x.drain.site.tree) := by
  obtain ⟨node, hqueued⟩ := logSite_queued
  refine ⟨node, by decide +kernel, ?_⟩
  exact crash_safe .ascii Intake.logJob node logSite hqueued logRow stoppedDrain

/-- A call of `survey_upload` that answers leaves its survey so. -/
theorem surveyUpload_queued (rt : Runtime) (s : App) (key : Option String) (form : SurveyForm)
    (draw : Draw) (uploadedUtc : String) {r : SurveyUploadResponse}
    (hinbox : s.surveys.inbox.lookup draw.nodeId = none)
    (harchive : s.surveys.archive.lookup draw.nodeId = none)
    (hstored : (surveyUpload rt s key form draw uploadedUtc).2 = .ok r) :
    ∃ job node, job.id = draw.nodeId ∧
      Queued job node (surveyUpload rt s key form draw uploadedUtc).1.toSite := by
  have hchunk : ∀ content : Bytes, [content].flatten = content := by simp
  obtain ⟨job, hid, hrun⟩ := Intake.upload_alone rt hchunk s key form draw uploadedUtc hstored
  have hinv : ∀ x, Intake.UploadRun job (Intake.start s.toSite) x → Intake.Inv job x := by
    intro x h
    induction h with
    | refl => exact Intake.start_inv (hid ▸ hinbox) (hid ▸ harchive)
    | tail _ hstep ih => exact hstep ▸ Intake.upload_inv ih
  have h := hinv _ hrun
  have huploaded := surveyUpload_uploaded rt s key form draw uploadedUtc
  generalize surveyUpload rt s key form draw uploadedUtc = after at huploaded hstored h ⊢
  cases huploaded with
  | refuse e => cases hstored
  | collide n refused => cases hstored
  | store tier loc n files folder response credential tiered checked resolved node few created stashed =>
    have hfolder := h.live (Or.inl (by simp [Intake.start, hid, Table.lookup_replaceRow]))
    obtain ⟨live, hlive⟩ := Option.isSome_iff_exists.mp hfolder
    refine ⟨job, live, hid, hlive, fun f hf => ?_, fun f _ => ?_⟩
    · exact (h.filed.kept f hf).resolve_right fun hin => List.not_mem_nil hin.2
    · change (s.surveys.archive.lookup job.id).bind _ = none
      rw [hid, harchive, Option.bind_none]

end Drains

end GridWitness.Survey
