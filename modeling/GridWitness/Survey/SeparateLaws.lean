import GridWitness.Server.OwnershipLaws
import GridWitness.Survey.CrashLaws
import GridWitness.Survey.WithdrawalLaws

namespace GridWitness.Survey

open Library Server

/-- A data line of a node. -/
def DataLine (id : String) (kind : Kind) (l : Line) : Prop := l ≠ kind.header ∧ l.get kind "node_id" = .text id

instance (id : String) (kind : Kind) (l : Line) : Decidable (DataLine id kind l) :=
  inferInstanceAs (Decidable (_ ∧ _))

/-- The data lines of a node in a staging file. -/
def dataLines (id : String) (tree : StagingTree) (p : StagingPath) : List Line :=
  (tree.lines p).filter (DataLine id p.kind)

/-- Two volumes that agree on all there is of a survey: its node, its folders and what is staged of it. -/
structure SameSurvey (id : String) (site site' : Site) : Prop where
  node : site'.db.getNode id = site.db.getNode id
  inbox : site'.surveys.inbox.lookup id = site.surveys.inbox.lookup id
  archive : site'.surveys.archive.lookup id = site.surveys.archive.lookup id
  lines : ∀ p, dataLines id site'.tree p = dataLines id site.tree p

namespace SameSurvey

variable {id : String} {site site' site'' : Site}

theorem refl (id : String) (site : Site) : SameSurvey id site site := ⟨rfl, rfl, rfl, fun _ => rfl⟩

theorem symm (h : SameSurvey id site site') : SameSurvey id site' site :=
  ⟨h.node.symm, h.inbox.symm, h.archive.symm, fun p => (h.lines p).symm⟩

theorem trans (h : SameSurvey id site site') (h' : SameSurvey id site' site'') : SameSurvey id site site'' :=
  ⟨h'.node.trans h.node, h'.inbox.trans h.inbox, h'.archive.trans h.archive,
    fun p => (h'.lines p).trans (h.lines p)⟩

end SameSurvey

section Lines

variable {id : String} {tree tree' : StagingTree}

/-- Lines of other nodes make no difference. -/
theorem dataLines_appends {P : Kind → Line → Prop} (h : StagingTree.Appends P tree tree')
    (hP : ∀ kind l, P kind l → l.get kind "node_id" ≠ .text id) (p : StagingPath) :
    dataLines id tree' p = dataLines id tree p := by
  obtain ⟨new, hnew, hall⟩ := h p
  have hnone : new.filter (DataLine id p.kind) = [] := by
    refine List.filter_eq_nil_iff.mpr fun l hl => ?_
    rw [decide_eq_true_eq]
    rintro ⟨hne, hid⟩
    exact (hall l hl).elim hne fun h => hP _ _ h hid
  rw [dataLines, hnew, List.filter_append, hnone, List.append_nil, dataLines]

theorem SurveyRow.dataLine {node : Node} {r : Row} (h : SurveyRow node r) :
    DataLine node.nodeId .electrical (Kind.electrical.csvLine r) := by
  obtain ⟨row, rfl, -⟩ := h
  exact ⟨Kind.csvLine_ne_header (projectElectrical_projected row node).numeric, rfl⟩

/-- A survey's rows come in below what is staged of it, whatever else the files hold. -/
theorem dataLines_append (rt : Runtime) {node : Node} {rows : List Row} (hrows : ∀ r ∈ rows, SurveyRow node r)
    (hpaths : ∀ r ∈ rows, (StagingWriter.path rt .electrical "ts_utc" r).isSome) (tree : StagingTree)
    (p : StagingPath) :
    dataLines node.nodeId (StagingWriter.append rt .electrical electricalCsvColumns "ts_utc" none tree rows).1 p =
      dataLines node.nodeId tree p ++
        (rows.filter (StagingWriter.path rt .electrical "ts_utc" · = some p)).map Kind.electrical.csvLine := by
  have hlines : (StagingWriter.append rt .electrical electricalCsvColumns "ts_utc" none tree rows).1.lines p = _ :=
    (StagingWriter.append_lines hpaths p).1
  simp only [dataLines, hlines]
  cases hgroup : rows.filter (StagingWriter.path rt .electrical "ts_utc" · = some p) with
  | nil => simp
  | cons first group =>
    have hfirst : first ∈ rows.filter (StagingWriter.path rt .electrical "ts_utc" · = some p) := by
      rw [hgroup]
      exact List.mem_cons_self
    have hkind : p.kind = .electrical :=
      StagingWriter.path_kind (of_decide_eq_true (List.mem_filter.mp hfirst).2)
    have hall : ((first :: group).map Kind.electrical.csvLine).filter (DataLine node.nodeId p.kind) =
        (first :: group).map Kind.electrical.csvLine := by
      refine List.filter_eq_self.mpr fun l hl => ?_
      obtain ⟨r, hr, rfl⟩ := List.mem_map.mp hl
      rw [← hgroup] at hr
      rw [hkind, decide_eq_true_eq]
      exact (hrows r (List.mem_filter.mp hr).1).dataLine
    have hheader : decide (DataLine node.nodeId p.kind (StagingWriter.header electricalCsvColumns)) = false := by
      rw [hkind]
      exact decide_eq_false fun h => h.1 rfl
    rw [if_neg (List.cons_ne_nil _ _), List.filter_append, StagingWriter.output]
    refine congrArg (((tree.lines p).filter (DataLine node.nodeId p.kind)) ++ ·) ?_
    split
    · exact hall
    · rw [List.filter_cons, hheader]
      exact hall

theorem append_same (rt : Runtime) {node : Node} {rows : List Row} (hrows : ∀ r ∈ rows, SurveyRow node r)
    {site site' : Site} (h : SameSurvey node.nodeId site site') :
    let x := StagingWriter.append rt .electrical electricalCsvColumns "ts_utc" none site.tree rows
    let x' := StagingWriter.append rt .electrical electricalCsvColumns "ts_utc" none site'.tree rows
    x'.2 = x.2 ∧ ∀ p, dataLines node.nodeId x'.1 p = dataLines node.nodeId x.1 p := by
  intro x x'
  by_cases hpaths : ∀ r ∈ rows, (StagingWriter.path rt .electrical "ts_utc" r).isSome
  · have hdone : ∀ tree : StagingTree,
        (StagingWriter.append rt .electrical electricalCsvColumns "ts_utc" none tree rows).2 = true := by
      intro tree
      obtain ⟨located, hlocated⟩ := Option.isSome_iff_exists.mp (StagingWriter.paths_isSome.mpr hpaths)
      rw [StagingWriter.append, hlocated]
      exact StagingWriter.appendBuckets_none _ _ _
    refine ⟨(hdone _).trans (hdone _).symm, fun p => ?_⟩
    rw [dataLines_append rt hrows hpaths, dataLines_append rt hrows hpaths, h.lines]
  · have hnone : StagingWriter.paths rt .electrical "ts_utc" rows = none := by
      rw [← Option.not_isSome_iff_eq_none, StagingWriter.paths_isSome]
      exact hpaths
    simp only [x, x', StagingWriter.append, hnone]
    exact ⟨trivial, h.lines⟩

end Lines

section Window

/-- A window that knows no key of some rows deals with them as an empty one would. -/
theorem filterNew_unseen {keyFields : List String} {rows : List Row} {d d' : Deduper}
    (hsize : d'.maxsize = d.maxsize) (h : ∀ r ∈ rows, dedupeKey keyFields r ∉ d.seen)
    (h' : ∀ r ∈ rows, dedupeKey keyFields r ∉ d'.seen) :
    (d'.filterNew keyFields rows).2 = (d.filterNew keyFields rows).2 := by
  have hholds : ∀ d : Deduper, d.Holds (d.seen ++ []) := fun d => by
    rw [List.append_nil]
    exact d.holds_seen
  have hunique : (d'.filterNew keyFields rows).2.1 = (d.filterNew keyFields rows).2.1 := by
    rw [(Deduper.filterNew_fresh keyFields (hholds d) rows).1, (Deduper.filterNew_fresh keyFields (hholds d') rows).1,
      Window.fresh_before _ _ h, Window.fresh_before _ _ h', hsize]
  have hcount := (Deduper.filterNew_sublist keyFields d rows).2
  have hcount' := (Deduper.filterNew_sublist keyFields d' rows).2
  rw [hunique] at hcount'
  exact Prod.ext hunique (by omega)

/-- A drain that has not come to a survey yet: its window knows none of its keys. -/
structure Unmet (id : String) (d : Drain) : Prop where
  unseen : Unseen id d.dedupe
  size : d.dedupe.maxsize = StagingWriter.freshDeduper.maxsize

theorem Unmet.start (id : String) (site : Site) : Unmet id { site } :=
  ⟨fun _ hk => absurd hk List.not_mem_nil, rfl⟩

theorem Unmet.congr {id : String} {d d' : Drain} (hd : Unmet id d) (h : d'.dedupe = d.dedupe) : Unmet id d' :=
  ⟨h ▸ hd.unseen, h ▸ hd.size⟩

/-- The write of a survey: what is staged of it, and the answer, depend on the survey alone. -/
theorem write_same (rt : Runtime) {node : Node} {rows : List Row} (hrows : ∀ r ∈ rows, SurveyRow node r)
    {d d' : Drain} (h : SameSurvey node.nodeId d.site d'.site) (hd : Unmet node.nodeId d)
    (hd' : Unmet node.nodeId d') :
    let w := StagingWriter.writeElectrical rt none ⟨d.site.tree, d.dedupe⟩ rows
    let w' := StagingWriter.writeElectrical rt none ⟨d'.site.tree, d'.dedupe⟩ rows
    w'.2 = w.2 ∧ ∀ p, dataLines node.nodeId w'.1.tree p = dataLines node.nodeId w.1.tree p := by
  have hnew : ∀ d : Drain, Unmet node.nodeId d → ∀ r ∈ rows, dedupeKey StagingWriter.electricalKey r ∉ d.dedupe.seen :=
    fun d hd r hr hmem => hd.unseen _ hmem (hrows r hr).head
  have hfilter := filterNew_unseen (hd'.size.trans hd.size.symm) (hnew d hd) (hnew d' hd')
  have hunique : ∀ r ∈ (d.dedupe.filterNew StagingWriter.electricalKey rows).2.1, SurveyRow node r :=
    fun r hr => hrows r (Deduper.filterNew_unique_mem _ hr)
  have happend := append_same rt hunique h
  simp only [StagingWriter.writeElectrical, StagingWriter.write, hfilter]
  exact ⟨by rw [happend.1], happend.2⟩

end Window

namespace SameSurvey

variable {id name : String} {d d' : Drain} {content : Content}

theorem withInbox (h : SameSurvey id d.site d'.site) {t t' : Table String Folder} (ht : t'.lookup id = t.lookup id) :
    SameSurvey id (d.withInbox t).site (d'.withInbox t').site :=
  ⟨h.node, ht, h.archive, h.lines⟩

theorem withArchive (h : SameSurvey id d.site d'.site) {t t' : Table String Folder}
    (ht : t'.lookup id = t.lookup id) : SameSurvey id (d.withArchive t).site (d'.withArchive t').site :=
  ⟨h.node, h.inbox, ht, h.lines⟩

theorem replaceRow {t t' : Table String Folder} {f f' : Folder} (hf : f' = f) :
    (t'.replaceRow id f').lookup id = (t.replaceRow id f).lookup id := by
  rw [hf, Table.lookup_replaceRow, Table.lookup_replaceRow, if_pos rfl, if_pos rfl]

theorem deleteRow {t t' : Table String Folder} : (t'.deleteRow id).lookup id = (t.deleteRow id).lookup id := by
  rw [Table.lookup_deleteRow, Table.lookup_deleteRow, if_pos rfl, if_pos rfl]

/-- Going on after an operation on the folders of the survey: it fails on both volumes or on neither. -/
abbrev Both (id : String) : Option Drain → Option Drain → Prop :=
  Option.Rel fun x x' => SameSurvey id x.site x'.site

theorem writeArchive (h : SameSurvey id d.site d'.site) :
    Both id (d.writeArchive id name content) (d'.writeArchive id name content) := by
  simp only [Drain.writeArchive, h.archive]
  cases d.site.surveys.archive.lookup id with
  | none => exact .none
  | some folder => exact .some (h.withArchive (replaceRow rfl))

theorem writeInbox (h : SameSurvey id d.site d'.site) :
    Both id (d.writeInbox id name content) (d'.writeInbox id name content) := by
  simp only [Drain.writeInbox, h.inbox]
  cases d.site.surveys.inbox.lookup id with
  | none => exact .none
  | some folder => exact .some (h.withInbox (replaceRow rfl))

theorem moveFile (h : SameSurvey id d.site d'.site) : Both id (d.moveFile id name) (d'.moveFile id name) := by
  simp only [Drain.moveFile, h.inbox]
  cases d.site.surveys.inbox.lookup id with
  | none => exact .none
  | some folder =>
    cases hcontent : folder.lookup name with
    | none => simp only [hcontent]; exact .none
    | some content =>
      have hwrite : Both id (d.writeArchive id name content) (d'.writeArchive id name content) :=
        h.writeArchive
      simp only [hcontent]
      generalize d.writeArchive id name content = w, d'.writeArchive id name content = w' at hwrite
      cases hwrite with
      | none => exact .none
      | some hw => exact .some (hw.withInbox (replaceRow rfl))

theorem readManifest (h : SameSurvey id d.site d'.site) : d'.readManifest id = d.readManifest id := by
  simp only [Drain.readManifest, h.inbox]

end SameSurvey

/-- A survey that has not written to staging yet. -/
def Stage.Unwritten : Stage → Prop
  | .start => True
  | .described _ => True
  | .loaded _ _ => True
  | .parsed _ _ => True
  | _ => False

section Step

variable {rt : Runtime} {parseFile : Parser} {id : String} {d d' : Drain}

/-- Two drains at the same point of a survey, on volumes that agree on it. -/
structure Alongside (id : String) (x x' : Drain × Stage) : Prop where
  stage : x'.2 = x.2
  site : SameSurvey id x.1.site x'.1.site
  unmet : x.2.Unwritten → Unmet id x.1 ∧ Unmet id x'.1

theorem next_alongside (h : SameSurvey id d.site d'.site) {o o' : Option Drain}
    (ho : SameSurvey.Both id o o') {next : Stage} (hnext : ¬ next.Unwritten) :
    let go : Drain → Option Drain → Drain × Stage := fun d o =>
      match o with
      | none => (d, .finished .error)
      | some d => (d, next)
    Alongside id (go d o) (go d' o') := by
  cases ho with
  | none => exact ⟨rfl, h, fun hun => hun.elim⟩
  | some hd => exact ⟨rfl, hd, fun hun => absurd hun hnext⟩

variable (rt parseFile)

theorem step_alongside {stage : Stage} (h : Alongside id (d, stage) (d', stage))
    (hstage : stage.Holds (·.nodeId = id)) {tick : Tick} (hfault : tick.fault = none) :
    Alongside id (step rt parseFile id tick d stage) (step rt parseFile id tick d' stage) := by
  obtain ⟨-, hsite, hunmet⟩ := h
  cases stage with
  | start =>
    simp only [step, hsite.readManifest]
    cases d.readManifest id with
    | none => exact ⟨rfl, hsite, fun hun => hun.elim⟩
    | some m => exact ⟨rfl, hsite, fun _ => hunmet trivial⟩
  | described m =>
    simp only [step, hsite.node]
    cases d.site.db.getNode id with
    | none => exact ⟨rfl, hsite, fun hun => hun.elim⟩
    | some node => exact ⟨rfl, hsite, fun _ => hunmet trivial⟩
  | withdrawn => exact ⟨rfl, hsite.withInbox SameSurvey.deleteRow, fun hun => hun.elim⟩
  | purging => exact ⟨rfl, hsite.withArchive SameSurvey.deleteRow, fun hun => hun.elim⟩
  | loaded m node =>
    simp only [step, hsite.inbox]
    split
    · exact ⟨rfl, hsite, fun hun => hun.elim⟩
    · exact ⟨rfl, hsite, fun _ => hunmet trivial⟩
  | parsed m w =>
    obtain ⟨node, rfl, hrows⟩ := hstage
    obtain ⟨hd, hd'⟩ := hunmet trivial
    obtain ⟨hanswer, hlines⟩ := write_same rt hrows hsite hd hd'
    simp only [step, hfault]
    rcases hw : StagingWriter.writeElectrical rt none ⟨d.site.tree, d.dedupe⟩ w.staged with ⟨writer, answer⟩
    rcases hw' : StagingWriter.writeElectrical rt none ⟨d'.site.tree, d'.dedupe⟩ w.staged with ⟨writer', answer'⟩
    rw [hw, hw'] at hanswer hlines
    obtain rfl : answer' = answer := hanswer
    cases answer' with
    | none => exact ⟨rfl, ⟨hsite.node, hsite.inbox, hsite.archive, hlines⟩, fun hun => hun.elim⟩
    | some answer => exact ⟨rfl, ⟨hsite.node, hsite.inbox, hsite.archive, hlines⟩, fun hun => hun.elim⟩
  | staged m w accepted dups =>
    exact ⟨rfl, hsite.withArchive (SameSurvey.replaceRow (by rw [hsite.archive])), fun hun => hun.elim⟩
  | archiving m w accepted dups =>
    simp only [step]
    split
    · exact ⟨rfl, hsite, fun hun => hun.elim⟩
    · exact next_alongside hsite hsite.writeArchive fun hun => hun
  | moving m w accepted dups remaining =>
    cases remaining with
    | cons name remaining => exact next_alongside hsite hsite.moveFile fun hun => hun
    | nil =>
      simp only [step]
      split
      · exact next_alongside hsite hsite.writeArchive fun hun => hun
      · exact next_alongside hsite hsite.writeInbox fun hun => hun
  | cleaning accepted files => exact ⟨rfl, hsite.withInbox SameSurvey.deleteRow, fun hun => hun.elim⟩
  | finished outcome => exact ⟨rfl, hsite, fun hun => hun.elim⟩

theorem run_alongside {ticks : Nat → Tick} (hfault : ∀ n, (ticks n).fault = none) (fuel : Nat) {stage : Stage}
    (h : Alongside id (d, stage) (d', stage)) (hstage : stage.Holds (·.nodeId = id)) :
    Alongside id (run rt parseFile id ticks fuel d stage) (run rt parseFile id ticks fuel d' stage) := by
  induction fuel generalizing d d' stage with
  | zero => exact h
  | succ fuel ih =>
    have hstep := step_alongside rt parseFile h hstage (hfault fuel)
    have hholds := (step_effect rt parseFile id (ticks fuel) d stage).holds
      (fun _ => Database.getNode_nodeId) hstage
    rw [run, run]
    generalize step rt parseFile id (ticks fuel) d stage = x,
      step rt parseFile id (ticks fuel) d' stage = x' at hstep hholds
    obtain ⟨d₁, stage₁⟩ := x
    obtain ⟨d₁', stage₁'⟩ := x'
    obtain rfl : stage₁' = stage₁ := hstep.stage
    exact ih hstep hholds

/-- A survey comes to the same on volumes that agree on it. -/
theorem processSurvey_same {ticks : Nat → Tick} (hfault : ∀ n, (ticks n).fault = none)
    (h : SameSurvey id d.site d'.site) (hd : Unmet id d) (hd' : Unmet id d') :
    SameSurvey id (processSurvey rt parseFile id ticks d).1.site
      (processSurvey rt parseFile id ticks d').1.site := by
  have hfuel : fuelFor id d' = fuelFor id d := by rw [fuelFor, fuelFor, h.inbox]
  rw [processSurvey, processSurvey, hfuel]
  have hstart : Alongside id (d, .start) (d', .start) := ⟨rfl, h, fun _ => ⟨hd, hd'⟩⟩
  exact (run_alongside rt parseFile hfault _ hstart trivial).site

variable {rt parseFile} in
theorem Effect.unmet {j : String} {stage stage' : Stage} (h : Effect rt parseFile j d stage d' stage')
    (hstage : stage.Holds (·.nodeId = j)) (hj : id ≠ j) (hd : Unmet id d) : Unmet id d' := by
  cases h with
  | write m w fault result hwritten _ =>
    obtain ⟨node, rfl, hrows⟩ := hstage
    have hunseen : Unseen id (StagingWriter.writeElectrical rt fault ⟨d.site.tree, d.dedupe⟩ w.staged).1.dedupe :=
      write_unseen rt fault hd.unseen hrows hj.symm
    have hsize := (Deduper.filterNew_fresh StagingWriter.electricalKey d.dedupe.holds_seen w.staged).2.1
    rw [hwritten] at hunseen
    refine ⟨hunseen, Eq.trans ?_ (hsize.trans hd.size)⟩
    exact congrArg (fun x => x.1.dedupe.maxsize) hwritten.symm
  | extract _ h => exact hd.congr (Drain.writeArchive_frame h).2.2.1
  | record _ h => exact hd.congr (Drain.writeArchive_frame h).2.2.1
  | pend _ h => exact hd.congr (Drain.writeInbox_frame h).2.2.1
  | move h => exact hd.congr (Drain.moveFile_frame h).2.2
  | _ => exact hd.congr rfl

/-- The survey of another node changes nothing of this one. -/
theorem processSurvey_other {j : String} (hj : id ≠ j) (ticks : Nat → Tick) (d : Drain) :
    SameSurvey id d.site (processSurvey rt parseFile j ticks d).1.site ∧
      (Unmet id d → Unmet id (processSurvey rt parseFile j ticks d).1) := by
  let I : Drain → Stage → Prop := fun x stage =>
    (SameSurvey id d.site x.site ∧ (Unmet id d → Unmet id x)) ∧ stage.Holds (·.nodeId = j)
  suffices h : I (processSurvey rt parseFile j ticks d).1 (processSurvey rt parseFile j ticks d).2 from h.1
  refine run_invariant (I := I) (fun x stage x' stage' hx h => ?_) ticks _ d .start
    ⟨⟨.refl id _, fun h => h⟩, trivial⟩
  obtain ⟨⟨hsite, hunmet⟩, hstage⟩ := hx
  refine ⟨⟨hsite.trans ?_, fun hd => ?_⟩, h.holds (fun _ => Database.getNode_nodeId) hstage⟩
  · have hfolders := h.folders_eq hj
    refine ⟨by rw [h.db_eq], congrArg Prod.fst hfolders, congrArg Prod.snd hfolders, ?_⟩
    rcases h.tree_eq with heq | ⟨m, w, fault, rfl, heq⟩
    · rw [heq]
      exact fun _ => rfl
    · obtain ⟨node, rfl, hrows⟩ := hstage
      rw [heq]
      refine dataLines_appends (StagingWriter.write_appends rt .electrical fault ⟨x.site.tree, x.dedupe⟩ w.staged) ?_
      rintro kind l ⟨rfl, r, hr, rfl⟩ hid
      have hnode := (hrows r (Deduper.filterNew_unique_mem _ hr)).dataLine.2
      rw [hnode] at hid
      exact hj (Cell.text.inj hid).symm
  · exact h.unmet hstage hj (hunmet hd)

end Step

section Drain

variable (rt : Runtime) (parseFile : Parser) {id : String} {ticks : String → Nat → Tick}

variable (ticks) in
/-- The surveys of other nodes, one after the other. -/
theorem visits_others {ids : List String} (h : id ∉ ids) (d : Drain) :
    let d' := ids.foldl (fun d j => (processSurvey rt parseFile j (ticks j) d).1) d
    SameSurvey id d.site d'.site ∧ (Unmet id d → Unmet id d') := by
  induction ids generalizing d with
  | nil => exact ⟨.refl id _, fun hd => hd⟩
  | cons j ids ih =>
    obtain ⟨hj, hids⟩ := not_or.mp (List.mem_cons.not.mp h)
    obtain ⟨hsite, hunmet⟩ := processSurvey_other rt parseFile hj (ticks j) d
    obtain ⟨hrest, hrestUnmet⟩ := ih hids (processSurvey rt parseFile j (ticks j) d).1
    exact ⟨hsite.trans hrest, fun hd => hrestUnmet (hunmet hd)⟩

variable (ticks) in
/-- A drain visits a survey once, between those of other nodes. -/
theorem drain_turn {site : Site} (hid : id ∈ site.surveys.inbox) :
    ∃ d, SameSurvey id site d.site ∧ Unmet id d ∧
      SameSurvey id (processSurvey rt parseFile id (ticks id) d).1.site (drain rt parseFile ticks site) := by
  have hnodup : (site.surveys.inbox.keys.insertionSort (· ≤ ·)).Nodup :=
    (List.perm_insertionSort _ _).nodup_iff.mpr site.surveys.inbox.keys_nodup
  obtain ⟨front, back, hids⟩ := List.append_of_mem ((List.mem_insertionSort (· ≤ ·)).mpr (AList.mem_keys.mp hid))
  rw [hids] at hnodup
  have hfront : id ∉ front := fun hmem =>
    List.disjoint_of_nodup_append hnodup hmem List.mem_cons_self
  have hback : id ∉ back := (List.nodup_cons.mp (List.nodup_append.mp hnodup).2.1).1
  obtain ⟨hsite, hunmet⟩ := visits_others rt parseFile ticks hfront { site }
  refine ⟨_, hsite, hunmet (.start id site), ?_⟩
  rw [drain, hids, List.foldl_append, List.foldl_cons]
  exact (visits_others rt parseFile ticks hback _).1

/-- A drain does the same for a survey on any two volumes that agree on it. -/
theorem drain_same (hfault : ∀ n, (ticks id n).fault = none) {site site' : Site} (h : SameSurvey id site site') :
    SameSurvey id (drain rt parseFile ticks site) (drain rt parseFile ticks site') := by
  by_cases hid : id ∈ site.surveys.inbox
  · have hid' : id ∈ site'.surveys.inbox := by rwa [← AList.lookup_isSome, h.inbox, AList.lookup_isSome]
    obtain ⟨d, hsite, hunmet, hend⟩ := drain_turn rt parseFile ticks hid
    obtain ⟨d', hsite', hunmet', hend'⟩ := drain_turn rt parseFile ticks hid'
    have hboth := processSurvey_same rt parseFile hfault (hsite.symm.trans (h.trans hsite')) hunmet hunmet'
    exact hend.symm.trans (hboth.trans hend')
  · have hid' : id ∉ site'.surveys.inbox := by rwa [← AList.lookup_isSome, h.inbox, AList.lookup_isSome]
    have hqueue : ∀ site : Site, id ∉ site.surveys.inbox → SameSurvey id site (drain rt parseFile ticks site) := by
      intro site hid
      refine (visits_others rt parseFile ticks (fun hmem => hid ?_) { site }).1
      exact AList.mem_keys.mpr ((List.mem_insertionSort (· ≤ ·)).mp hmem)
    exact (hqueue site hid).symm.trans (h.trans (hqueue site' hid'))

end Drain

end GridWitness.Survey

namespace GridWitness.Server

open Library Survey

/-- The node a request is about. -/
def Request.about : Request → String
  | .register _ _ _ draw => draw.nodeId
  | .samples c => c.body.nodeId
  | .updateNode _ body _ => body.nodeId
  | .deleteNode _ nodeId _ => nodeId
  | .adminUpdateNode _ nodeId _ _ => nodeId
  | .adminDeleteNode _ nodeId _ _ => nodeId
  | .surveyUpload _ _ draw _ => draw.nodeId

section Request

variable {rt : Runtime} {s : App} {r : Request} {id : String}

theorem Request.Authority.about (h : r.Authority rt s id) : r.about = id := by
  cases h with
  | token authorization presented names => cases r <;> cases names <;> rfl
  | account contributorRef names => cases r <;> cases names <;> rfl

theorem Request.about_draw {draw : Draw} (h : r.draw = some draw) : r.about = draw.nodeId := by
  cases r <;> cases h <;> rfl

/-- A request about another node changes nothing of a survey. -/
theorem handle_other (hs : s.db.Consistent) (h : r.about ≠ id) :
    SameSurvey id s.toSite (s.handle rt r).toSite := by
  have hsame : SameNode s (s.handle rt r) id := by
    by_contra hchanged
    rcases handle_sameNode hs hchanged with ⟨-, hauthority⟩ | ⟨draw, hdraw, hid⟩
    · exact h hauthority.about
    · exact h ((Request.about_draw hdraw).trans hid)
  refine ⟨by simp only [Database.getNode, hsame.row], hsame.inbox, hsame.archive, fun p => ?_⟩
  by_cases hsamples : ∃ c, r = .samples c
  · obtain ⟨c, rfl⟩ := hsamples
    refine dataLines_appends (postSamples_nodeId rt s c) (fun kind l hl hid => h ?_) p
    exact Cell.text.inj (hl.symm.trans hid)
  · rw [(handle_effect rt s r (not_exists.mp hsamples)).frame.1]

end Request

/-- A run of the survey worker. -/
def Op.drains : Op → Bool
  | .drain _ _ => true
  | .request _ => false

/-- Whatever other nodes send, upload or have erased, and whatever is wrong with their surveys: a survey comes
to what it comes to by itself, in its folders and in staging. -/
theorem surveys_isolated (rt : Runtime) (internalKey : Option String) (rowsPerMin : ℚ) (before ops : List Op)
    (id : String) (hothers : ∀ r, .request r ∈ ops → r.about ≠ id)
    (hfault : ∀ parseFile ticks, .drain parseFile ticks ∈ ops → ∀ n, (ticks id n).fault = none) :
    let s := (App.start internalKey rowsPerMin).after rt before
    SameSurvey id (s.after rt (ops.filter Op.drains)).toSite (s.after rt ops).toSite := by
  intro s
  have hs : s.db.Consistent := after_consistent rt internalKey rowsPerMin before
  have hrun : ∀ x : App, SameSurvey id x.toSite s.toSite → s.db.Consistent →
      SameSurvey id (x.after rt (ops.filter Op.drains)).toSite (s.after rt ops).toSite := by
    generalize s = s
    induction ops generalizing s with
    | nil => exact fun x h _ => h
    | cons op ops ih =>
      intro x h hs
      have hothers' : ∀ r, .request r ∈ ops → r.about ≠ id := fun r hr => hothers r (List.mem_cons_of_mem _ hr)
      have hfault' : ∀ parseFile ticks, .drain parseFile ticks ∈ ops → ∀ n, (ticks id n).fault = none :=
        fun parseFile ticks hd => hfault parseFile ticks (List.mem_cons_of_mem _ hd)
      cases op with
      | request r =>
        refine ih hothers' hfault' (s.step rt (.request r)) x ?_ (step_consistent hs _)
        exact h.trans (handle_other hs (hothers r List.mem_cons_self))
      | drain parseFile ticks =>
        refine ih hothers' hfault' (s.step rt (.drain parseFile ticks)) (x.step rt (.drain parseFile ticks)) ?_
          (step_consistent hs _)
        exact drain_same rt parseFile (hfault parseFile ticks List.mem_cons_self) h
  exact hrun s (.refl id _) hs

/-- The survey of a file whose content is one number, which a drain cannot read if it is 0. -/
def numbered (id : String) (n : UInt8) : Op :=
  .request (.surveyUpload (some "key")
    { contributorRef := "alice", label := "site", region := some "LONDON", files := [⟨some "log.csv", [n]⟩] }
    ⟨id, "secret", "2026-07-10T08:00:00Z"⟩ "2026-07-10T08:00:00Z")

def numberedDrain : Op :=
  .drain (fun _ content =>
    match content with
    | .raw [0] => none
    | _ => some ⟨[⟨"2026-07-10T09:00:00Z", "1p", none, some (.fin 50)⟩], 1, 1, 0, none, false⟩) fun _ _ => {}

/-- A survey that makes the worker raise, and is visited first. -/
theorem surveys_isolated_badNeighbour :
    let s := (App.start (some "key") 6000).after .ascii [numbered "n1" 1]
    let alone := (s.after .ascii [numberedDrain]).toSite
    let together := (s.after .ascii [numbered "n0" 0, numberedDrain]).toSite
    SameSurvey "n1" alone together ∧ together.surveys.inbox.keys = ["n0"] ∧
      (dataLines "n1" together.tree ⟨.electrical, "2026-07-10", "09"⟩).length = 1 := by
  refine ⟨?_, by decide +kernel, by decide +kernel⟩
  refine surveys_isolated .ascii (some "key") 6000 [numbered "n1" 1] [numbered "n0" 0, numberedDrain] "n1"
    (fun r hr => ?_) fun parseFile ticks hd n => ?_
  · simp only [numbered, numberedDrain, List.mem_cons, Op.request.injEq, reduceCtorEq, List.not_mem_nil,
      or_false] at hr
    rw [hr]
    decide
  · simp only [numbered, numberedDrain, List.mem_cons, Op.drain.injEq, reduceCtorEq, List.not_mem_nil, false_or,
      or_false] at hd
    rw [hd.2]

end GridWitness.Server
