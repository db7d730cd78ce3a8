import GridWitness.Server.ConsentLaws

namespace GridWitness.Survey

open Library Server

namespace Drain

variable {d d' : Drain} {id name : String} {content : Content}

theorem writeArchive_frame (h : d.writeArchive id name content = some d') :
    d'.site.db = d.site.db ∧ d'.site.tree = d.site.tree ∧ d'.dedupe = d.dedupe ∧
      d'.site.surveys.inbox = d.site.surveys.inbox := by
  obtain ⟨folder, -, rfl⟩ := Option.map_eq_some_iff.mp h
  exact ⟨rfl, rfl, rfl, rfl⟩

theorem writeInbox_frame (h : d.writeInbox id name content = some d') :
    d'.site.db = d.site.db ∧ d'.site.tree = d.site.tree ∧ d'.dedupe = d.dedupe ∧
      d'.site.surveys.archive = d.site.surveys.archive := by
  obtain ⟨folder, -, rfl⟩ := Option.map_eq_some_iff.mp h
  exact ⟨rfl, rfl, rfl, rfl⟩

theorem moveFile_frame (h : d.moveFile id name = some d') :
    d'.site.db = d.site.db ∧ d'.site.tree = d.site.tree ∧ d'.dedupe = d.dedupe := by
  simp only [moveFile] at h
  split at h
  · cases h
  · split at h
    · cases h
    · obtain ⟨d₁, h₁, rfl⟩ := Option.map_eq_some_iff.mp h
      obtain ⟨hdb, htree, hdedupe, -⟩ := writeArchive_frame h₁
      exact ⟨hdb, htree, hdedupe⟩

end Drain

/-- A row of a survey: a projected device row of its node within the consent of the node. -/
def SurveyRow (node : Node) (r : Row) : Prop :=
  ∃ row : ElectricalRow, projectElectrical row node = r ∧
    ∀ c ∈ row.presentChannels, c ∈ node.channels

theorem stagedRows_surveyRow {node : Node} {rows : List ParsedRow} {staged : List Row}
    (h : stagedRows node rows = some staged) : ∀ r ∈ staged, SurveyRow node r := by
  induction rows generalizing staged with
  | nil =>
    cases h
    simp
  | cons pr rows ih =>
    simp only [stagedRows] at h
    split at h
    · next row rest hrow hrest =>
      split at h
      · next hok =>
        cases h
        intro r hr
        rcases List.mem_cons.mp hr with rfl | hr
        · refine ⟨row, rfl, ?_⟩
          simpa [List.filter_eq_nil_iff] using hok
        · exact ih hrest r hr
      · cases h
        exact ih hrest
    · cases h

theorem parseFiles_surveyRow {parseFile : Parser} {node : Node} {files : List (String × Content)}
    {w : Work} (h : parseFiles parseFile node files = some w) :
    ∀ r ∈ w.staged, SurveyRow node r := by
  induction files generalizing w with
  | nil =>
    cases h
    simp
  | cons f files ih =>
    simp only [parseFiles] at h
    split at h
    · cases h
    · split at h
      · obtain ⟨rest, hrest, heq⟩ := Option.map_eq_some_iff.mp h
        subst heq
        exact ih (w := rest) hrest
      · split at h
        · next rows rest hrows hrest =>
          cases h
          intro r hr
          exact (List.mem_append.mp hr).elim (stagedRows_surveyRow hrows r) (ih hrest r)
        · cases h

/-- What a drain carries between its effects belongs to the node it has loaded. -/
def Stage.Holds (I : Node → Prop) : Stage → Prop
  | .loaded _ node => I node
  | .parsed _ w => ∃ node, I node ∧ ∀ r ∈ w.staged, SurveyRow node r
  | _ => True

section Step

variable (rt : Runtime) (parseFile : Parser) (id : String)

/-- What one effect of `process_survey` can do. -/
inductive Effect : Drain → Stage → Drain → Stage → Prop
  | fail : Effect d stage d (.finished .error)
  | describe : Effect d .start d (.described m)
  | load (live : d.site.db.getNode id = some node) : Effect d (.described m) d (.loaded m node)
  | withdraw (gone : d.site.db.getNode id = none) : Effect d (.described m) d .withdrawn
  | purgeInbox :
    Effect d .withdrawn (d.withInbox (d.site.surveys.inbox.deleteRow id)) .purging
  | purgeArchive :
    Effect d .purging (d.withArchive (d.site.surveys.archive.deleteRow id))
      (.finished .purgedWithdrawn)
  | parse (m : Manifest) (node : Node) (w : Work) (found : d.site.surveys.inbox.lookup id = some inbox)
      (parsed : parseFiles parseFile node (dataFiles inbox) = some w) :
    Effect d (.loaded m node) d (.parsed m w)
  | write (m : Manifest) (w : Work) (fault : Option AppendFault) (result : Option (Nat × Nat))
      (written : StagingWriter.writeElectrical rt fault ⟨d.site.tree, d.dedupe⟩ w.staged =
        (writer, result))
      (next : stage = match result with
        | none => .finished .error
        | some (accepted, dups) => .staged m w accepted dups) :
    Effect d (.parsed m w) ⟨{ d.site with tree := writer.tree }, writer.dedupe⟩ stage
  | makeArchive :
    Effect d (.staged m w accepted dups) (d.makeArchive id) (.archiving m w accepted dups)
  | skip (empty : w.staged = []) :
    Effect d (.archiving m w accepted dups) d (.moving m w accepted dups w.handled)
  | extract (rows : w.staged ≠ [])
      (written : d.writeArchive id (extractedName now) (.extracted (extractedLines w.staged)) =
        some d') :
    Effect d (.archiving m w accepted dups) d' (.moving m w accepted dups w.handled)
  | move (moved : d.moveFile id name = some d') :
    Effect d (.moving m w accepted dups (name :: remaining)) d'
      (.moving m w accepted dups remaining)
  | record (done : w.deferred = [])
      (written : d.writeArchive id "manifest.json"
        (.manifest (processedManifest m w accepted dups now)) = some d') :
    Effect d (.moving m w accepted dups []) d' (.cleaning accepted w.handled.length)
  | pend (left : w.deferred ≠ [])
      (written : d.writeInbox id "manifest.json"
        (.manifest (processedManifest m w accepted dups now)) = some d') :
    Effect d (.moving m w accepted dups []) d' (.finished (.pqdifPending accepted w.deferred))
  | clean :
    Effect d (.cleaning accepted files) (d.withInbox (d.site.surveys.inbox.deleteRow id))
      (.finished (.processed accepted files))
  | done : Effect d (.finished outcome) d (.finished outcome)

theorem step_effect (tick : Tick) (d : Drain) (stage : Stage) :
    Effect rt parseFile id d stage (step rt parseFile id tick d stage).1
      (step rt parseFile id tick d stage).2 := by
  cases stage with
  | start =>
    simp only [step]
    split
    · exact .fail
    · exact .describe
  | described m =>
    simp only [step]
    split
    · next h => exact .withdraw h
    · next h => exact .load h
  | withdrawn => exact .purgeInbox
  | purging => exact .purgeArchive
  | loaded m node =>
    simp only [step]
    split
    · exact .fail
    · next h =>
      obtain ⟨inbox, hfound, hparse⟩ := Option.bind_eq_some_iff.mp h
      exact .parse m node _ hfound hparse
  | parsed m w =>
    simp only [step]
    split
    · next h => exact .write m w tick.fault none h rfl
    · next h => exact .write m w tick.fault (some _) h rfl
  | staged m w accepted dups => exact .makeArchive
  | archiving m w accepted dups =>
    simp only [step]
    split
    · next h => exact .skip h
    · next hrows =>
      split
      · exact .fail
      · next h => exact .extract hrows h
  | moving m w accepted dups remaining =>
    cases remaining with
    | nil =>
      simp only [step]
      split
      · next hdone =>
        split
        · exact .fail
        · next h => exact .record hdone h
      · next hleft =>
        split
        · exact .fail
        · next h => exact .pend hleft h
    | cons name remaining =>
      simp only [step]
      split
      · exact .fail
      · next h => exact .move h
  | cleaning accepted files => exact .clean
  | finished outcome => exact .done

variable {rt parseFile id} {d d' : Drain} {stage stage' : Stage}

theorem Effect.db_eq (h : Effect rt parseFile id d stage d' stage') :
    d'.site.db = d.site.db := by
  cases h with
  | extract _ h => exact (Drain.writeArchive_frame h).1
  | move h => exact (Drain.moveFile_frame h).1
  | record _ h => exact (Drain.writeArchive_frame h).1
  | pend _ h => exact (Drain.writeInbox_frame h).1
  | _ => rfl

/-- Only one effect of a survey touches staging: the write of its parsed rows. -/
theorem Effect.tree_eq (h : Effect rt parseFile id d stage d' stage') :
    d'.site.tree = d.site.tree ∨ ∃ m w fault, stage = .parsed m w ∧ d'.site.tree =
      (StagingWriter.writeElectrical rt fault ⟨d.site.tree, d.dedupe⟩ w.staged).1.tree := by
  cases h with
  | write m w fault _ hwritten _ => exact Or.inr ⟨m, w, fault, rfl, by rw [hwritten]⟩
  | extract _ h => exact Or.inl (Drain.writeArchive_frame h).2.1
  | move h => exact Or.inl (Drain.moveFile_frame h).2.1
  | record _ h => exact Or.inl (Drain.writeArchive_frame h).2.1
  | pend _ h => exact Or.inl (Drain.writeInbox_frame h).2.1
  | _ => exact Or.inl rfl

theorem Effect.holds {I : Node → Prop} (h : Effect rt parseFile id d stage d' stage')
    (hI : ∀ node, d.site.db.getNode id = some node → I node) (hstage : stage.Holds I) :
    stage'.Holds I := by
  cases h with
  | load hlive => exact hI _ hlive
  | parse m node w _ hparsed => exact ⟨node, hstage, parseFiles_surveyRow hparsed⟩
  | write m w fault result _ hnext =>
    subst hnext
    cases result <;> trivial
  | _ => trivial

theorem run_invariant {I : Drain → Stage → Prop}
    (keep : ∀ d stage d' stage', I d stage → Effect rt parseFile id d stage d' stage' →
      I d' stage') (ticks : Nat → Tick) (fuel : Nat) (d : Drain) (stage : Stage) (h : I d stage) :
    I (run rt parseFile id ticks fuel d stage).1 (run rt parseFile id ticks fuel d stage).2 := by
  induction fuel generalizing d stage with
  | zero => exact h
  | succ fuel ih => exact ih _ _ (keep _ _ _ _ h (step_effect rt parseFile id (ticks fuel) d stage))

/-- A bound on the effects a survey still has before it. -/
def Stage.cost (id : String) (d : Drain) : Stage → Nat
  | .start => 8 + (d.site.surveys.inbox.lookup id).elim 0 fun folder => folder.keys.length
  | .described _ => 7 + (d.site.surveys.inbox.lookup id).elim 0 fun folder => folder.keys.length
  | .withdrawn => 2
  | .purging => 1
  | .loaded _ _ => 6 + (d.site.surveys.inbox.lookup id).elim 0 fun folder => folder.keys.length
  | .parsed _ w => 5 + w.handled.length
  | .staged _ w _ _ => 4 + w.handled.length
  | .archiving _ w _ _ => 3 + w.handled.length
  | .moving _ _ _ _ remaining => 2 + remaining.length
  | .cleaning _ _ => 1
  | .finished _ => 0

theorem parseFiles_handled {parseFile : Parser} {node : Node} {files : List (String × Content)}
    {w : Work} (h : parseFiles parseFile node files = some w) : w.handled.length ≤ files.length := by
  induction files generalizing w with
  | nil =>
    cases h
    rfl
  | cons f files ih =>
    simp only [parseFiles] at h
    split at h
    · cases h
    · split at h
      · obtain ⟨rest, hrest, rfl⟩ := Option.map_eq_some_iff.mp h
        exact (ih hrest).trans (Nat.le_succ _)
      · split at h
        · next rows rest hrows hrest =>
          cases h
          exact Nat.succ_le_succ (ih hrest)
        · cases h

theorem dataFiles_length (inbox : Folder) : (dataFiles inbox).length ≤ inbox.keys.length := by
  refine (List.length_filterMap_le _ _).trans ?_
  rw [List.length_insertionSort]
  exact List.length_filter_le _ _

/-- Every effect of a survey brings it closer to its end. -/
theorem Effect.cost_lt (h : Effect rt parseFile id d stage d' stage')
    (hopen : ∀ outcome, stage ≠ .finished outcome) : stage'.cost id d' < stage.cost id d := by
  cases h with
  | fail =>
    cases stage with
    | finished outcome => exact absurd rfl (hopen outcome)
    | _ => simp only [Stage.cost]; omega
  | parse m node w hfound hparsed =>
    have hlength := (parseFiles_handled hparsed).trans (dataFiles_length _)
    simp only [Stage.cost, hfound, Option.elim_some]
    omega
  | write m w fault result hwritten hnext =>
    subst hnext
    cases result <;> simp only [Stage.cost] <;> omega
  | done => exact absurd rfl (hopen _)
  | _ => simp only [Stage.cost, List.length_cons]; omega

theorem run_finished (ticks : Nat → Tick) (fuel : Nat) (d : Drain) (stage : Stage)
    (hfuel : stage.cost id d ≤ fuel) :
    ∃ outcome, (run rt parseFile id ticks fuel d stage).2 = .finished outcome := by
  induction fuel generalizing d stage with
  | zero =>
    cases stage with
    | finished outcome => exact ⟨outcome, rfl⟩
    | _ => simp only [Stage.cost] at hfuel; omega
  | succ fuel ih =>
    have heffect := step_effect rt parseFile id (ticks fuel) d stage
    generalize hnext : step rt parseFile id (ticks fuel) d stage = next at heffect
    have hcost : next.2.cost id next.1 ≤ fuel := by
      by_cases hopen : ∀ outcome, stage ≠ .finished outcome
      · have hlt := heffect.cost_lt hopen
        omega
      · push Not at hopen
        obtain ⟨outcome, rfl⟩ := hopen
        subst hnext
        exact Nat.zero_le _
    subst hnext
    exact ih _ _ hcost

/-- The fuel of `process_survey` suffices. -/
theorem processSurvey_finished (ticks : Nat → Tick) (d : Drain) :
    ∃ outcome, (processSurvey rt parseFile id ticks d).2 = .finished outcome := by
  refine run_finished ticks _ d .start ?_
  simp only [Stage.cost, fuelFor]
  omega

end Step

theorem SurveyRow.rowOf {node : Node} {r : Row} (h : SurveyRow node r) :
    RowOf node .electrical r := by
  obtain ⟨row, rfl, hchannels⟩ := h
  exact .electrical row hchannels

/-- A drain leaves the node store alone and stages rows of live nodes only. -/
theorem drain_staged (rt : Runtime) (parseFile : Parser) (ticks : String → Nat → Tick)
    (site : Site) :
    (drain rt parseFile ticks site).db = site.db ∧
      StagingTree.Appends (LineOfLive site.db) site.tree (drain rt parseFile ticks site).tree := by
  let I : Drain → Prop := fun d => d.site.db = site.db ∧
    StagingTree.Appends (LineOfLive site.db) site.tree d.site.tree
  have survey : ∀ d id, I d → I (processSurvey rt parseFile id (ticks id) d).1 := by
    intro d id hd
    let J : Drain → Stage → Prop := fun d stage =>
      I d ∧ stage.Holds fun node => site.db.getNode id = some node
    have keep : ∀ d stage d' stage', J d stage → Effect rt parseFile id d stage d' stage' →
        J d' stage' := by
      rintro d stage d' stage' ⟨⟨hdb, htree⟩, hstage⟩ h
      refine ⟨⟨h.db_eq.trans hdb, ?_⟩, h.holds (by rw [hdb]; exact fun _ hnode => hnode) hstage⟩
      rcases h.tree_eq with heq | ⟨m, w, fault, rfl, heq⟩
      · rwa [heq]
      · obtain ⟨node, hnode, hrows⟩ := hstage
        have hwritten := @writeKind_lineOf rt .electrical node _ fault ⟨d.site.tree, d.dedupe⟩
          fun r hr => (hrows r hr).rowOf
        rw [heq]
        exact htree.trans (hwritten.mono fun _ _ hl =>
          ⟨node, by rwa [Database.getNode_nodeId hnode], hl⟩)
    exact (run_invariant (I := J) keep (ticks id) (fuelFor id d) d .start ⟨hd, trivial⟩).1
  exact Trace.foldl_invariant (I := I) survey ⟨rfl, .refl⟩ _

theorem drain_consented (rt : Runtime) (parseFile : Parser) (ticks : String → Nat → Tick)
    (site : Site) :
    (drain rt parseFile ticks site).db = site.db ∧
      StagingTree.Appends (Line.Consented site.db) site.tree
        (drain rt parseFile ticks site).tree :=
  (drain_staged rt parseFile ticks site).imp_right fun h => h.mono fun _ _ => LineOfLive.consented

end GridWitness.Survey
