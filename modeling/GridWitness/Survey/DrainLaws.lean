import GridWitness.Survey.Intake
import GridWitness.Survey.WorkerLaws

namespace GridWitness.Survey

open Library Server

def Work.empty : Work := ⟨[], [], [], []⟩

def Work.append (w w' : Work) : Work where
  staged := w.staged ++ w'.staged
  handled := w.handled ++ w'.handled
  deferred := w.deferred ++ w'.deferred
  reports := w.reports ++ w'.reports

theorem Work.append_empty (w : Work) : w.append .empty = w := by
  simp [append, empty]

theorem Work.append_assoc (w w' w'' : Work) : (w.append w').append w'' = w.append (w'.append w'') := by
  simp [append]

section Loop

variable (parseFile : Parser) (node : Node)

theorem readFile_append (name : String) (content : Content) (work : Work) :
    readFile parseFile node name content work =
      (readFile parseFile node name content .empty).map work.append := by
  simp only [readFile]
  cases parseFile name content with
  | none => rfl
  | some res =>
    simp only
    split
    · simp [Work.append, Work.empty]
    · cases stagedRows node res.rows with
      | none => rfl
      | some rows => simp [Work.append, Work.empty]

/-- The loop over the data files, one round after the other. -/
theorem parseFiles_cons (name : String) (content : Content) (files : List (String × Content)) :
    parseFiles parseFile node ((name, content) :: files) =
      (readFile parseFile node name content .empty).bind fun w =>
        (parseFiles parseFile node files).map w.append := by
  simp only [parseFiles, readFile]
  cases parseFile name content with
  | none => rfl
  | some res =>
    simp only
    split
    · cases parseFiles parseFile node files <;> rfl
    · cases stagedRows node res.rows with
      | none => rfl
      | some rows => cases parseFiles parseFile node files <;> rfl

end Loop

namespace Intake

variable (job : Job) (rt : Runtime) (parseFile : Parser) {x : Intake} {id : String}
  {remaining : List String}

/-- The worker takes steps while the upload takes none. -/
abbrev WorkerRun : Intake → Intake → Prop :=
  Relation.ReflTransGen fun x y => ∃ tick, y = x.workerStep job rt parseFile tick

theorem reading_step {m : Manifest} {node : Node} {name : String} {names : List String}
    {work : Work} {content : Content} (tick : Tick)
    (hworker : x.worker = .reading id remaining m node (name :: names) work)
    (hcontent : x.drain.inboxFile id name = some content) :
    (x.workerStep job rt parseFile tick).drain = x.drain ∧
      (x.workerStep job rt parseFile tick).worker =
        (readFile parseFile node name content work).elim (.survey id remaining (.finished .error))
          fun work => .reading id remaining m node names work := by
  simp only [workerStep, hworker, hcontent]
  split
  · cases readFile parseFile node name content work <;> exact ⟨rfl, rfl⟩
  · cases readFile parseFile node name content work <;> exact ⟨rfl, rfl⟩

/-- The files are read one after the other as the loop of `process_survey` reads them. -/
theorem reading_run {m : Manifest} {node : Node} {folder : Folder} {names : List String} {work : Work}
    (hworker : x.worker = .reading id remaining m node names work)
    (hfolder : x.drain.site.surveys.inbox.lookup id = some folder)
    (hnames : ∀ name ∈ names, name ∈ folder) :
    ∃ y, WorkerRun job rt parseFile x y ∧ y.drain = x.drain ∧
      y.worker =
        (parseFiles parseFile node
          (names.filterMap fun name => (folder.lookup name).map (name, ·))).elim
          (.survey id remaining (.finished .error))
          fun w => .survey id remaining (.parsed m (work.append w)) := by
  induction names generalizing x work with
  | nil =>
    refine ⟨_, .single ⟨{}, rfl⟩, ?_, ?_⟩
    · simp only [workerStep, hworker]
    · simp only [workerStep, hworker, List.filterMap_nil, parseFiles, Option.elim_some]
      rw [show (⟨[], [], [], []⟩ : Work) = .empty from rfl, Work.append_empty]
  | cons name names ih =>
    obtain ⟨content, hcontent⟩ := Option.isSome_iff_exists.mp
      (AList.lookup_isSome.mpr (hnames name List.mem_cons_self))
    have hfile : x.drain.inboxFile id name = some content := by
      rw [Drain.inboxFile, hfolder, Option.bind_some, hcontent]
    obtain ⟨hdrain, hnext⟩ := reading_step job rt parseFile {} hworker hfile
    have hstep : WorkerRun job rt parseFile x (x.workerStep job rt parseFile {}) := .single ⟨{}, rfl⟩
    rw [readFile_append] at hnext
    rw [List.filterMap_cons, hcontent, Option.map_some, parseFiles_cons]
    cases hread : readFile parseFile node name content .empty with
    | none =>
      rw [hread] at hnext
      exact ⟨_, hstep, hdrain, hnext⟩
    | some w =>
      rw [hread] at hnext
      obtain ⟨y, hrun, hy, hout⟩ := ih hnext (hdrain ▸ hfolder)
        fun name hname => hnames name (List.mem_cons_of_mem _ hname)
      refine ⟨y, hstep.trans hrun, hy.trans hdrain, hout.trans ?_⟩
      rw [Option.bind_some]
      cases parseFiles parseFile node (names.filterMap fun name => (folder.lookup name).map (name, ·)) with
      | none => rfl
      | some w' => simp only [Option.map_some, Option.elim_some, Work.append_assoc]

/-- The worker that is let run takes each step of `process_survey`. -/
theorem survey_run {stage : Stage} (tick : Tick) (hworker : x.worker = .survey id remaining stage) :
    ∃ y, WorkerRun job rt parseFile x y ∧
      y.drain = (Survey.step rt parseFile id tick x.drain stage).1 ∧
      y.worker = .survey id remaining (Survey.step rt parseFile id tick x.drain stage).2 := by
  have hstep : WorkerRun job rt parseFile x (x.workerStep job rt parseFile tick) := .single ⟨tick, rfl⟩
  cases stage with
  | finished outcome => exact ⟨x, .refl, rfl, hworker⟩
  | loaded m node =>
    cases hfolder : x.drain.site.surveys.inbox.lookup id with
    | none =>
      refine ⟨_, hstep, ?_, ?_⟩ <;> simp only [workerStep, Survey.step, hworker, hfolder, Option.bind_none]
    | some folder =>
      let y := x.workerStep job rt parseFile tick
      have hdrain : y.drain = x.drain := by
        simp only [y, workerStep, hworker, hfolder]
        split <;> rfl
      have hreading : y.worker = .reading id remaining m node (dataNames folder) .empty := by
        simp only [y, workerStep, hworker, hfolder]
        rfl
      have hnames : ∀ name ∈ dataNames folder, name ∈ folder := by
        intro name hname
        simp only [dataNames, List.mem_insertionSort, List.mem_filter] at hname
        exact hname.1
      obtain ⟨z, hrun, hz, hout⟩ := reading_run job rt parseFile hreading (hdrain ▸ hfolder) hnames
      refine ⟨z, hstep.trans hrun, ?_, hout.trans ?_⟩
      · rw [hz, hdrain]
        simp only [Survey.step]
        split <;> rfl
      · have hfiles : (dataNames folder).filterMap (fun name => (folder.lookup name).map (name, ·)) =
            dataFiles folder := rfl
        simp only [hfiles, Survey.step, hfolder, Option.bind_some]
        cases parseFiles parseFile node (dataFiles folder) <;> rfl
  | _ =>
    refine ⟨_, hstep, ?_, ?_⟩ <;> simp only [workerStep, hworker]

theorem process_run (ticks : Nat → Tick) (fuel : Nat) {stage : Stage}
    (hworker : x.worker = .survey id remaining stage) :
    ∃ y, WorkerRun job rt parseFile x y ∧
      y.drain = (run rt parseFile id ticks fuel x.drain stage).1 ∧
      y.worker = .survey id remaining (run rt parseFile id ticks fuel x.drain stage).2 := by
  induction fuel generalizing x stage with
  | zero => exact ⟨x, .refl, rfl, hworker⟩
  | succ fuel ih =>
    obtain ⟨y, hrun, hdrain, hnext⟩ := survey_run job rt parseFile (ticks fuel) hworker
    obtain ⟨z, hrest, hz, hout⟩ := ih hnext
    rw [hdrain] at hz hout
    exact ⟨z, hrun.trans hrest, hz, hout⟩

theorem draining_run (ticks : String → Nat → Tick) {ids : List String}
    (hworker : x.worker = .draining ids) :
    ∃ y, WorkerRun job rt parseFile x y ∧ y.worker = .idle ∧
      y.drain = ids.foldl (fun d id => (processSurvey rt parseFile id (ticks id) d).1) x.drain := by
  induction ids generalizing x with
  | nil =>
    refine ⟨_, .single ⟨{}, rfl⟩, ?_, ?_⟩ <;> simp only [workerStep, hworker, List.foldl_nil]
  | cons id ids ih =>
    let x₁ := x.workerStep job rt parseFile {}
    have h₁ : x₁.drain = x.drain ∧ x₁.worker = .survey id ids .start := by
      constructor <;> simp only [x₁, workerStep, hworker]
    obtain ⟨x₂, hrun₂, hdrain₂, hworker₂⟩ :=
      process_run job rt parseFile (ticks id) (fuelFor id x.drain) h₁.2
    rw [h₁.1] at hdrain₂ hworker₂
    -- the survey is over, whatever its outcome
    obtain ⟨outcome, hover⟩ := @processSurvey_finished rt parseFile id (ticks id) x.drain
    rw [processSurvey] at hover
    rw [hover] at hworker₂
    let x₃ := x₂.workerStep job rt parseFile {}
    have h₃ : x₃.drain = x₂.drain ∧ x₃.worker = .draining ids := by
      constructor <;> simp only [x₃, workerStep, hworker₂]
    obtain ⟨y, hrun, hidle, hout⟩ := ih h₃.2
    refine ⟨y, ?_, hidle, ?_⟩
    · have hfirst : WorkerRun job rt parseFile x x₁ := .single ⟨{}, rfl⟩
      have hlast : WorkerRun job rt parseFile x₂ x₃ := .single ⟨{}, rfl⟩
      exact ((hfirst.trans hrun₂).trans hlast).trans hrun
    · rw [hout, h₃.1, hdrain₂]
      rfl

/-- The worker that is let run drains the inbox as `drain` does in one piece. -/
theorem drain_alone (ticks : String → Nat → Tick) (hidle : x.worker = .idle) :
    ∃ y, WorkerRun job rt parseFile x y ∧ y.worker = .idle ∧
      y.drain.site = Survey.drain rt parseFile ticks x.drain.site := by
  let x₁ := x.workerStep job rt parseFile {}
  have h₁ : x₁.drain = { x.drain with dedupe := StagingWriter.freshDeduper } ∧
      x₁.worker = .draining (x.drain.site.surveys.inbox.keys.insertionSort (· ≤ ·)) := by
    constructor <;> simp only [x₁, workerStep, hidle]
  have hfirst : WorkerRun job rt parseFile x x₁ := .single ⟨{}, rfl⟩
  obtain ⟨y, hrun, hover, hout⟩ := draining_run job rt parseFile ticks h₁.2
  refine ⟨y, hfirst.trans hrun, hover, ?_⟩
  rw [hout, h₁.1]
  rfl

end Intake

end GridWitness.Survey
