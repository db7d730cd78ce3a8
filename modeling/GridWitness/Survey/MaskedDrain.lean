import GridWitness.Server.Masking

namespace GridWitness.Survey

open Library Server

/-- The same point of a survey with its accounts renamed. -/
def Stage.rename (ref : String → String) : Stage → Stage
  | .described m => .described (m.rename ref)
  | .loaded m node => .loaded (m.rename ref) node
  | .parsed m w => .parsed (m.rename ref) w
  | .staged m w accepted dups => .staged (m.rename ref) w accepted dups
  | .archiving m w accepted dups => .archiving (m.rename ref) w accepted dups
  | .moving m w accepted dups remaining => .moving (m.rename ref) w accepted dups remaining
  | stage => stage

theorem at_extracted (ref : String → String) (name : String) (lines : List Line) :
    Content.at ref name (.extracted lines) = .extracted lines := by
  rw [Content.at]
  split <;> rfl

structure Drain.Similar (rt : Runtime) (M : Masking) (d d' : Drain) : Prop where
  site : Site.Similar rt M d.site d'.site
  dedupe : d'.dedupe = d.dedupe

namespace Drain.Similar

variable {rt : Runtime} {M : Masking} {d d' : Drain} {id name : String}

theorem withInbox (h : Similar rt M d d') {t t' : Table String Folder}
    (ht : Surveys.Similar M.ref t t') : Similar rt M (d.withInbox t) (d'.withInbox t') :=
  ⟨⟨h.site.db, h.site.tree, ht, h.site.archive⟩, h.dedupe⟩

theorem withArchive (h : Similar rt M d d') {t t' : Table String Folder}
    (ht : Surveys.Similar M.ref t t') : Similar rt M (d.withArchive t) (d'.withArchive t') :=
  ⟨⟨h.site.db, h.site.tree, h.site.inbox, ht⟩, h.dedupe⟩

theorem writeArchive (h : Similar rt M d d') {c c' : Content} (hc : c' = c.at M.ref name) :
    Option.Rel (Similar rt M) (d.writeArchive id name c) (d'.writeArchive id name c') := by
  simp only [Drain.writeArchive]
  rcases h.site.archive.lookup id with ⟨hf, hf'⟩ | ⟨f, f', hf, hf', hff⟩
  · rw [hf, hf']
    exact .none
  · rw [hf, hf']
    exact .some (h.withArchive (h.site.archive.replaceRow (hff.replaceRow hc)))

theorem writeInbox (h : Similar rt M d d') {c c' : Content} (hc : c' = c.at M.ref name) :
    Option.Rel (Similar rt M) (d.writeInbox id name c) (d'.writeInbox id name c') := by
  simp only [Drain.writeInbox]
  rcases h.site.inbox.lookup id with ⟨hf, hf'⟩ | ⟨f, f', hf, hf', hff⟩
  · rw [hf, hf']
    exact .none
  · rw [hf, hf']
    exact .some (h.withInbox (h.site.inbox.replaceRow (hff.replaceRow hc)))

theorem makeArchive (h : Similar rt M d d') : Similar rt M (d.makeArchive id) (d'.makeArchive id) := by
  apply h.withArchive
  apply h.site.archive.replaceRow
  rcases h.site.archive.lookup id with ⟨hf, hf'⟩ | ⟨f, f', hf, hf', hff⟩
  · rw [hf, hf']
    exact Table.Rel.empty
  · rw [hf, hf']
    exact hff

theorem moveFile (h : Similar rt M d d') :
    Option.Rel (Similar rt M) (d.moveFile id name) (d'.moveFile id name) := by
  simp only [Drain.moveFile]
  rcases h.site.inbox.lookup id with ⟨hf, hf'⟩ | ⟨f, f', hf, hf', hff⟩
  · rw [hf, hf']
    exact .none
  · rw [hf, hf']
    rcases hff.lookup name with ⟨hc, hc'⟩ | ⟨c, _, hc, hc', rfl⟩
    · simp only [hc, hc']
      exact .none
    · simp only [hc, hc']
      have hwrite : Option.Rel (Similar rt M) (d.writeArchive id name c)
          (d'.writeArchive id name (c.at M.ref name)) := h.writeArchive rfl
      generalize d.writeArchive id name c = w at hwrite
      generalize d'.writeArchive id name (c.at M.ref name) = w' at hwrite
      cases hwrite with
      | none => exact .none
      | some hw => exact .some (hw.withInbox (hw.site.inbox.replaceRow (hff.deleteRow name)))

theorem readManifest (h : Similar rt M d d') :
    d'.readManifest id = (d.readManifest id).map (Manifest.rename M.ref) := by
  simp only [Drain.readManifest]
  rcases h.site.inbox.lookup id with ⟨hf, hf'⟩ | ⟨f, f', hf, hf', hff⟩
  · rw [hf, hf']
    rfl
  · rw [hf, hf', Option.bind_some, Option.bind_some]
    rcases hff.lookup "manifest.json" with ⟨hc, hc'⟩ | ⟨c, _, hc, hc', rfl⟩
    · rw [hc, hc']
      rfl
    · rw [hc, hc', Content.at, if_pos rfl]
      cases c <;> rfl

end Drain.Similar

theorem dataFiles_eq {ref : String → String} {f f' : Folder} (h : Folder.Similar ref f f') :
    dataFiles f' = dataFiles f := by
  simp only [dataFiles, ← h.keys]
  apply List.filterMap_congr
  intro name hname
  have hne : name ≠ "manifest.json" := by
    simpa using (List.mem_filter.mp ((List.mem_insertionSort _).mp hname)).2
  rcases h.lookup name with ⟨hc, hc'⟩ | ⟨c, _, hc, hc', rfl⟩
  · rw [hc, hc']
  · rw [hc, hc', Content.at, if_neg hne]

section Step

variable {rt : Runtime} {M : Masking} (parseFile : Parser) (id : String) {d d' : Drain}

/-- Going on after an operation on the folders that fails in both drains or in neither. -/
theorem next_similar (h : Drain.Similar rt M d d') {o o' : Option Drain}
    (ho : Option.Rel (Drain.Similar rt M) o o') (next : Stage) :
    let go : Drain → Option Drain → Stage → Drain × Stage := fun d o next =>
      match o with
      | none => (d, .finished .error)
      | some d => (d, next)
    Drain.Similar rt M (go d o next).1 (go d' o' (next.rename M.ref)).1 ∧
      (go d' o' (next.rename M.ref)).2 = (go d o next).2.rename M.ref := by
  cases ho with
  | none => exact ⟨h, rfl⟩
  | some hd => exact ⟨hd, rfl⟩

theorem step_similar (h : Drain.Similar rt M d d') (tick : Tick) (stage : Stage) :
    Drain.Similar rt M (step rt parseFile id tick d stage).1
        (step rt parseFile id tick d' (stage.rename M.ref)).1 ∧
      (step rt parseFile id tick d' (stage.rename M.ref)).2 =
        (step rt parseFile id tick d stage).2.rename M.ref := by
  cases stage with
  | start =>
    simp only [step, Stage.rename, h.readManifest]
    cases d.readManifest id <;> exact ⟨h, rfl⟩
  | described m =>
    simp only [step, Stage.rename, h.site.db.getNode]
    cases d.site.db.getNode id <;> exact ⟨h, rfl⟩
  | withdrawn => exact ⟨h.withInbox (h.site.inbox.deleteRow id), rfl⟩
  | purging => exact ⟨h.withArchive (h.site.archive.deleteRow id), rfl⟩
  | loaded m node =>
    have hparse : ((d'.site.surveys.inbox.lookup id).bind fun inbox =>
        parseFiles parseFile node (dataFiles inbox)) =
        (d.site.surveys.inbox.lookup id).bind fun inbox =>
          parseFiles parseFile node (dataFiles inbox) := by
      rcases h.site.inbox.lookup id with ⟨hf, hf'⟩ | ⟨f, f', hf, hf', hff⟩
      · rw [hf, hf']
      · rw [hf, hf', Option.bind_some, Option.bind_some, dataFiles_eq hff]
    simp only [step, Stage.rename, hparse]
    split <;> exact ⟨h, rfl⟩
  | parsed m w =>
    simp only [step, Stage.rename, h.site.tree, h.dedupe]
    split <;> exact ⟨⟨⟨h.site.db, rfl, h.site.inbox, h.site.archive⟩, rfl⟩, rfl⟩
  | staged m w accepted dups => exact ⟨h.makeArchive, rfl⟩
  | archiving m w accepted dups =>
    simp only [step, Stage.rename]
    split
    · exact ⟨h, rfl⟩
    · exact next_similar h (h.writeArchive (at_extracted _ _ _).symm) (.moving m w accepted dups _)
  | moving m w accepted dups remaining =>
    cases remaining with
    | cons name remaining => exact next_similar h h.moveFile (.moving m w accepted dups remaining)
    | nil =>
      simp only [step, Stage.rename]
      split
      · exact next_similar h (h.writeArchive rfl) (.cleaning accepted _)
      · exact next_similar h (h.writeInbox rfl) (.finished (.pqdifPending accepted _))
  | cleaning accepted files => exact ⟨h.withInbox (h.site.inbox.deleteRow id), rfl⟩
  | finished outcome => exact ⟨h, rfl⟩

theorem run_similar (ticks : Nat → Tick) (fuel : Nat) (stage : Stage)
    (h : Drain.Similar rt M d d') :
    Drain.Similar rt M (run rt parseFile id ticks fuel d stage).1
      (run rt parseFile id ticks fuel d' (stage.rename M.ref)).1 := by
  induction fuel generalizing d d' stage with
  | zero => exact h
  | succ fuel ih =>
    obtain ⟨hstep, hstage⟩ := step_similar parseFile id h (ticks fuel) stage
    simp only [run, hstage]
    exact ih _ hstep

theorem processSurvey_similar (ticks : Nat → Tick) (h : Drain.Similar rt M d d') :
    Drain.Similar rt M (processSurvey rt parseFile id ticks d).1
      (processSurvey rt parseFile id ticks d').1 := by
  have hfuel : fuelFor id d' = fuelFor id d := by
    simp only [fuelFor]
    rcases h.site.inbox.lookup id with ⟨hf, hf'⟩ | ⟨f, f', hf, hf', hff⟩
    · rw [hf, hf']
    · simp only [hf, hf', Option.elim_some, hff.keys]
  rw [processSurvey, processSurvey, hfuel]
  exact run_similar parseFile id ticks _ .start h

end Step

theorem drain_similar {rt : Runtime} {M : Masking} {site site' : Site}
    (h : Site.Similar rt M site site') (parseFile : Parser) (ticks : String → Nat → Tick) :
    Site.Similar rt M (drain rt parseFile ticks site) (drain rt parseFile ticks site') := by
  have surveys : ∀ (ids : List String) {d d' : Drain}, Drain.Similar rt M d d' →
      Drain.Similar rt M
        (ids.foldl (fun d id => (processSurvey rt parseFile id (ticks id) d).1) d)
        (ids.foldl (fun d id => (processSurvey rt parseFile id (ticks id) d).1) d') := by
    intro ids
    induction ids with
    | nil => exact id
    | cons id ids ih => exact fun hd => ih (processSurvey_similar parseFile id (ticks id) hd)
  have hstart : Drain.Similar rt M { site } { site := site' } := ⟨h, rfl⟩
  simp only [drain, h.inbox.keys]
  exact (surveys _ hstart).site

end GridWitness.Survey
