import GridWitness.Survey.Withdrawal
import GridWitness.Survey.WorkerLaws

namespace GridWitness.Survey

open Library Server

/-- The folders of a node in both trees of surveys. -/
def folders (id : String) (d : Drain) : Option Folder × Option Folder :=
  (d.site.surveys.inbox.lookup id, d.site.surveys.archive.lookup id)

section Frame

variable {rt : Runtime} {parseFile : Parser} {id j : String} {d d' : Drain}
  {stage stage' : Stage} {name : String} {content : Content}

theorem folders_writeArchive (h : d.writeArchive j name content = some d') (hid : id ≠ j) :
    folders id d' = folders id d := by
  obtain ⟨folder, -, rfl⟩ := Option.map_eq_some_iff.mp h
  simp [folders, Drain.withArchive, Table.lookup_replaceRow, hid]

theorem folders_writeInbox (h : d.writeInbox j name content = some d') (hid : id ≠ j) :
    folders id d' = folders id d := by
  obtain ⟨folder, -, rfl⟩ := Option.map_eq_some_iff.mp h
  simp [folders, Drain.withInbox, Table.lookup_replaceRow, hid]

theorem folders_moveFile (h : d.moveFile j name = some d') (hid : id ≠ j) :
    folders id d' = folders id d := by
  simp only [Drain.moveFile] at h
  split at h
  · cases h
  · split at h
    · cases h
    · obtain ⟨d₁, h₁, rfl⟩ := Option.map_eq_some_iff.mp h
      rw [← folders_writeArchive h₁ hid]
      simp [folders, Drain.withInbox, Table.lookup_replaceRow, hid]

/-- The survey of one node leaves the folders of every other node alone. -/
theorem Effect.folders_eq (h : Effect rt parseFile j d stage d' stage') (hid : id ≠ j) :
    folders id d' = folders id d := by
  cases h with
  | purgeInbox => simp [folders, Drain.withInbox, Table.lookup_deleteRow, hid]
  | purgeArchive => simp [folders, Drain.withArchive, Table.lookup_deleteRow, hid]
  | makeArchive =>
    simp [folders, Drain.makeArchive, Drain.withArchive, Table.lookup_replaceRow, hid]
  | extract _ h => exact folders_writeArchive h hid
  | move h => exact folders_moveFile h hid
  | record _ h => exact folders_writeArchive h hid
  | pend _ h => exact folders_writeInbox h hid
  | clean => simp [folders, Drain.withInbox, Table.lookup_deleteRow, hid]
  | _ => rfl

theorem processSurvey_folders (ticks : Nat → Tick) (d : Drain) (hid : id ≠ j) :
    folders id (processSurvey rt parseFile j ticks d).1 = folders id d :=
  run_invariant (I := fun d' _ => folders id d' = folders id d)
    (fun _ _ _ _ hd h => (h.folders_eq hid).trans hd) ticks _ d .start rfl

/-- A drain only visits the nodes that have a folder in the inbox. -/
theorem drain_folders (rt : Runtime) (parseFile : Parser) (ticks : String → Nat → Tick)
    {site : Site} (hid : site.surveys.inbox.lookup id = none) :
    (drain rt parseFile ticks site).surveys.inbox.lookup id = none ∧
      (drain rt parseFile ticks site).surveys.archive.lookup id =
        site.surveys.archive.lookup id := by
  have visit : ∀ (ids : List String) (d : Drain), id ∉ ids →
      folders id (ids.foldl (fun d j => (processSurvey rt parseFile j (ticks j) d).1) d) =
        folders id d := by
    intro ids
    induction ids with
    | nil => exact fun _ _ => rfl
    | cons j ids ih =>
      intro d hmem
      rw [List.mem_cons, not_or] at hmem
      exact (ih _ hmem.2).trans (processSurvey_folders (ticks j) d hmem.1)
  have hqueue : id ∉ site.surveys.inbox.keys.insertionSort (· ≤ ·) := by
    rw [List.mem_insertionSort, ← AList.mem_keys, ← AList.lookup_isSome, hid]
    decide
  have hfolders := visit _ { site } hqueue
  exact ⟨(congrArg Prod.fst hfolders).trans hid, congrArg Prod.snd hfolders⟩

end Frame

namespace Withdrawal

/-- No row of the node. -/
def NotOf (id : String) (kind : Kind) (l : Line) : Prop := l.get kind "node_id" ≠ .text id

def noFiles (folder : Option Folder) : Prop := ∀ name, folder.bind (·.lookup name) = none

/-- No file of the node in either tree of surveys. -/
def Clean (id : String) (site : Site) : Prop :=
  noFiles (site.surveys.inbox.lookup id) ∧ noFiles (site.surveys.archive.lookup id)

/-- A survey that will not write into its archive folder again once the inbox folder is gone. -/
def Harmless : Stage → Prop
  | .archiving _ w _ _ => w.staged = [] ∧ (w.handled ≠ [] ∨ w.deferred ≠ [])
  | .moving _ w _ _ remaining => remaining ≠ [] ∨ w.deferred ≠ []
  | .finished _ => True
  | _ => False

/-- The worker is on time: its write to staging comes before the erasure or lets no row through,
and its archive folder is made before the route removes it or receives no file. -/
def timely (x : Withdrawal) : Move → Bool
  | .worker _ =>
    match x.stage with
    | .parsed _ w => x.phase = .pending ||
        (x.drain.dedupe.filterNew StagingWriter.electricalKey w.staged).2.1.isEmpty
    | .staged _ w _ _ => x.phase ≠ .finished ||
        w.staged.isEmpty && !(w.handled.isEmpty && w.deferred.isEmpty)
    | _ => true
  | _ => true

structure Inv (id : String) (x : Withdrawal) : Prop where
  live : x.phase = .pending → x.drain.site.db.lifecycle id = .live
  gone : x.phase ≠ .pending → x.drain.site.db.getNode id = none
  inbox : x.phase = .inboxRemoved ∨ x.phase = .finished →
    x.drain.site.surveys.inbox.lookup id = none
  archive : x.phase = .finished → x.drain.site.surveys.archive.lookup id = none ∨
    noFiles (x.drain.site.surveys.archive.lookup id) ∧ Harmless x.stage

section Worker

variable {rt : Runtime} {parseFile : Parser} {id : String} {d d' : Drain} {stage stage' : Stage}

theorem inbox_removed (h : Effect rt parseFile id d stage d' stage')
    (hinbox : d.site.surveys.inbox.lookup id = none) :
    d'.site.surveys.inbox.lookup id = none := by
  cases h with
  | purgeInbox => simp [Drain.withInbox, Table.lookup_deleteRow]
  | clean => simp [Drain.withInbox, Table.lookup_deleteRow]
  | extract _ h => rw [(Drain.writeArchive_frame h).2.2.2, hinbox]
  | move h => simp [Drain.moveFile, hinbox] at h
  | record _ h => rw [(Drain.writeArchive_frame h).2.2.2, hinbox]
  | pend _ h => simp [Drain.writeInbox, hinbox] at h
  | _ => exact hinbox

/-- Once the route is through, the worker no longer brings a file into the archive. -/
theorem archive_kept (h : Effect rt parseFile id d stage d' stage')
    (hgone : d.site.db.getNode id = none) (hinbox : d.site.surveys.inbox.lookup id = none)
    (htimely : ∀ m w accepted dups, stage = .staged m w accepted dups →
      w.staged = [] ∧ (w.handled ≠ [] ∨ w.deferred ≠ []))
    (harchive : d.site.surveys.archive.lookup id = none ∨
      noFiles (d.site.surveys.archive.lookup id) ∧ Harmless stage) :
    d'.site.surveys.archive.lookup id = none ∨
      noFiles (d'.site.surveys.archive.lookup id) ∧ Harmless stage' := by
  cases h with
  | fail => exact harchive.imp_right fun h => ⟨h.1, trivial⟩
  | describe => exact harchive.imp_right fun h => h.2.elim
  | load hlive => simp [hgone] at hlive
  | withdraw _ => exact harchive.imp_right fun h => h.2.elim
  | purgeInbox => exact harchive.imp_right fun h => h.2.elim
  | purgeArchive => exact Or.inl (by simp [Drain.withArchive, Table.lookup_deleteRow])
  | parse m node w hfound _ => simp [hinbox] at hfound
  | write m w fault result _ hnext => exact harchive.imp_right fun h => h.2.elim
  | makeArchive =>
    have hnone := harchive.resolve_right fun h => h.2
    refine Or.inr ⟨fun name => ?_, htimely _ _ _ _ rfl⟩
    simp [Drain.makeArchive, Drain.withArchive, Table.lookup_replaceRow, hnone]
  | skip _ => exact harchive.imp_right fun h => ⟨h.1, h.2.2⟩
  | extract hrows hwritten =>
    rcases harchive with hnone | ⟨-, hempty, -⟩
    · simp [Drain.writeArchive, hnone] at hwritten
    · exact absurd hempty hrows
  | move hmoved => simp [Drain.moveFile, hinbox] at hmoved
  | record hdone hwritten =>
    rcases harchive with hnone | ⟨-, hmore⟩
    · simp [Drain.writeArchive, hnone] at hwritten
    · exact absurd hdone (hmore.resolve_left (not_not_intro rfl))
  | pend _ hwritten => simp [Drain.writeInbox, hinbox] at hwritten
  | clean => exact harchive.imp_right fun h => h.2.elim
  | done => exact harchive

theorem worker_tree (h : Effect rt parseFile id d stage d' stage') (P : Kind → Line → Prop)
    (htimely : ∀ m w, stage = .parsed m w →
      (d.dedupe.filterNew StagingWriter.electricalKey w.staged).2.1 = []) :
    StagingTree.Appends P d.site.tree d'.site.tree := by
  rcases h.tree_eq with heq | ⟨m, w, fault, hstage, heq⟩
  · rw [heq]
    exact .refl
  · rw [heq]
    apply (StagingWriter.write_appends rt .electrical fault ⟨d.site.tree, d.dedupe⟩ w.staged).mono
    rintro kind l ⟨-, r, hr, -⟩
    have hnone : (d.dedupe.filterNew Kind.electrical.keyFields w.staged).2.1 = [] :=
      htimely m w hstage
    rw [hnone] at hr
    cases hr

end Worker

variable {rt : Runtime} {parseFile : Parser} {id : String} {x : Withdrawal}

theorem timely_staged {tick : Tick} (h : timely x (.worker tick)) (hp : x.phase = .finished)
    {m : Manifest} {w : Work} {accepted dups : Nat} (hstage : x.stage = .staged m w accepted dups) :
    w.staged = [] ∧ (w.handled ≠ [] ∨ w.deferred ≠ []) := by
  simpa [timely, hstage, hp, Decidable.imp_iff_not_or] using h

theorem timely_parsed {tick : Tick} (h : timely x (.worker tick)) (hp : x.phase ≠ .pending)
    {m : Manifest} {w : Work} (hstage : x.stage = .parsed m w) :
    (x.drain.dedupe.filterNew StagingWriter.electricalKey w.staged).2.1 = [] := by
  simpa [timely, hstage, hp] using h

theorem worker_inv (hx : Inv id x) (tick : Tick) (h : timely x (.worker tick)) :
    Inv id (step rt parseFile id x (.worker tick)) := by
  have heff := step_effect rt parseFile id tick x.drain x.stage
  constructor
  · intro hp
    simp only [step, Database.lifecycle]
    rw [heff.db_eq]
    exact hx.live hp
  · intro hp
    simp only [step]
    rw [heff.db_eq]
    exact hx.gone hp
  · intro hp
    exact inbox_removed heff (hx.inbox hp)
  · intro hp
    have hp : x.phase = .finished := hp
    have hgone : x.phase ≠ .pending := by
      rw [hp]
      decide
    exact archive_kept heff (hx.gone hgone) (hx.inbox (Or.inr hp))
      (fun _ _ _ _ hstage => timely_staged h hp hstage) (hx.archive hp)

theorem route_inv (hx : Inv id x) (now : String) : Inv id (x.route id now) := by
  cases hp : x.phase with
  | pending =>
    have hlive := hx.live hp
    rcases Database.deleteNode_cases x.drain.site.db now id with ⟨-, hdead⟩ | ⟨herase, -⟩
    · exact absurd hlive hdead
    · simp only [route, hp, herase, withSite, if_true]
      have hgone : (x.drain.site.db.erase now id).getNode id = none := by
        rw [← Option.not_isSome_iff_eq_none, Database.getNode_isSome,
          Database.lifecycle_erase hlive, if_pos rfl]
        decide
      exact ⟨fun h => (by cases h), fun _ => hgone, fun h => by simp at h, fun h => (by cases h)⟩
  | erased =>
    simp only [route, hp, withSite, withSurveys]
    exact ⟨fun h => (by cases h), fun _ => hx.gone (by simp [hp]),
      fun _ => by simp [Table.lookup_deleteRow], fun h => (by cases h)⟩
  | inboxRemoved =>
    simp only [route, hp, withSite, withSurveys]
    exact ⟨fun h => (by cases h), fun _ => hx.gone (by simp [hp]), fun _ => hx.inbox (Or.inl hp),
      fun _ => Or.inl (by simp [Table.lookup_deleteRow])⟩
  | finished =>
    simp only [route, hp]
    exact hx

theorem settled_iff : x.settled = true ↔ (∃ o, x.stage = .finished o) ∧ x.phase = .finished := by
  simp only [settled]
  cases x.stage <;> cases x.phase <;> simp

theorem drain_inv (hx : Inv id x) (parse : Parser) (ticks : String → Nat → Tick) :
    Inv id (step rt parseFile id x (.drain parse ticks)) := by
  simp only [step]
  split
  · next hsettled =>
    obtain ⟨-, hp⟩ := settled_iff.mp hsettled
    obtain ⟨hinbox, harchive⟩ := drain_folders rt parse ticks (hx.inbox (Or.inr hp))
    have hdb := (drain_consented rt parse ticks x.drain.site).1
    refine ⟨fun h => ?_, fun h => ?_, fun _ => hinbox, fun _ => ?_⟩
    · simp only [withSite, hp] at h
      cases h
    · simp only [withSite, hdb]
      exact hx.gone h
    · simp only [withSite, harchive]
      exact hx.archive hp
  · exact hx

theorem step_inv (hx : Inv id x) (move : Move) (h : timely x move) :
    Inv id (step rt parseFile id x move) := by
  cases move with
  | worker tick => exact worker_inv hx tick h
  | route now => exact route_inv hx now
  | drain parse ticks => exact drain_inv hx parse ticks

theorem route_tree (now : String) : (x.route id now).drain.site.tree = x.drain.site.tree := by
  simp only [route]
  cases x.phase <;> rfl

/-- After the erasure no step on time stages a row of the node. -/
theorem step_tree (hx : Inv id x) (hp : x.phase ≠ .pending) (move : Move) (h : timely x move) :
    StagingTree.Appends (NotOf id) x.drain.site.tree
      (step rt parseFile id x move).drain.site.tree := by
  cases move with
  | worker tick =>
    exact worker_tree (step_effect rt parseFile id tick x.drain x.stage) _
      fun _ _ hstage => timely_parsed h hp hstage
  | route now =>
    simp only [step, route_tree]
    exact .refl
  | drain parse ticks =>
    simp only [step]
    split
    · apply (drain_consented rt parse ticks x.drain.site).2.mono
      rintro kind l ⟨node, hnode, hid, -⟩ hsame
      rw [hsame] at hid
      cases hid
      simp [hx.gone hp] at hnode
    · exact .refl

theorem step_phase (hp : x.phase ≠ .pending) (move : Move) :
    (step rt parseFile id x move).phase ≠ .pending := by
  cases move with
  | worker tick => exact hp
  | route now =>
    simp only [step, route]
    cases h : x.phase <;> simp_all [withSite]
  | drain parse ticks =>
    simp only [step]
    split <;> exact hp

theorem start_inv {site : Site} (dedupe : Deduper) (h : site.db.lifecycle id = .live) :
    Inv id (start site dedupe) :=
  ⟨fun _ => h, fun hp => absurd rfl hp, fun h => by simp [start] at h, nofun⟩

/-- A withdrawal leaves nothing behind in every interleaving in which the worker is on time:
no row of the node is staged after the erasure, and no file of it is left when both are done. -/
theorem withdrawal_complete (rt : Runtime) (parseFile : Parser) (id : String) (site : Site)
    (dedupe : Deduper) (before after : List Move) (live : site.db.lifecycle id = .live)
    (ontime : Trace.Along (step rt parseFile id) (fun x move => timely x move)
      (start site dedupe) (before ++ after)) :
    let x := before.foldl (step rt parseFile id) (start site dedupe)
    let y := after.foldl (step rt parseFile id) x
    (x.phase ≠ .pending → StagingTree.Appends (NotOf id) x.drain.site.tree y.drain.site.tree) ∧
    (y.settled → Clean id y.drain.site) := by
  intro x y
  obtain ⟨hbefore, hafter⟩ := Trace.Along.append.mp ontime
  have hx : Inv id x := hbefore.invariant (fun _ move hinv h => step_inv hinv move h)
    (start_inv dedupe live)
  constructor
  · intro hp
    let Kept : Withdrawal → Prop := fun y => Inv id y ∧ y.phase ≠ .pending ∧
      StagingTree.Appends (NotOf id) x.drain.site.tree y.drain.site.tree
    have keep : ∀ y move, Kept y → timely y move → Kept (step rt parseFile id y move) := by
      rintro y move ⟨hinv, hphase, htree⟩ h
      exact ⟨step_inv hinv move h, step_phase hphase move,
        htree.trans (step_tree hinv hphase move h)⟩
    have hy : Kept y := hafter.invariant keep ⟨hx, hp, .refl⟩
    exact hy.2.2
  · intro hsettled
    have hy : Inv id y := hafter.invariant (fun _ move hinv h => step_inv hinv move h) hx
    obtain ⟨-, hp⟩ := settled_iff.mp hsettled
    refine ⟨fun name => by rw [hy.inbox (Or.inr hp)]; rfl, fun name => ?_⟩
    rcases hy.archive hp with hnone | ⟨hclean, -⟩
    · rw [hnone]
      rfl
    · exact hclean name

/-- A site with one uploaded survey of one file. -/
def uploadedSite : Site :=
  ((App.start (some "key") 6000).handle .ascii (.surveyUpload (some "key")
    { contributorRef := "alice", label := "site", region := some "LONDON"
      files := [⟨some "log.csv", []⟩] }
    ⟨"n1", "secret", "2026-07-10T08:00:00Z"⟩ "2026-07-10T08:00:00Z")).toSite

/-- A parser that finds one row in every file. -/
def oneRow : Parser := fun _ _ =>
  some ⟨[⟨"2026-07-10T09:00:00Z", "1p", none, some (.fin 50)⟩], 1, 1, 0, none, false⟩

def workerMoves (n : Nat) : List Move := List.replicate n (.worker ⟨"2026-07-10T09:30:00Z", none⟩)

def routeMoves (n : Nat) : List Move := List.replicate n (.route "2026-07-10T09:30:00Z")

def lateRoute : List Move := routeMoves 2 ++ [.drain oneRow fun _ _ => {}]

theorem withdrawal_complete_uploadedSite :
    uploadedSite.db.lifecycle "n1" = .live ∧
    let x := (workerMoves 9 ++ routeMoves 1).foldl (step .ascii oneRow "n1")
      (start uploadedSite StagingWriter.freshDeduper)
    let y := lateRoute.foldl (step .ascii oneRow "n1") x
    (x.phase ≠ .pending → StagingTree.Appends (NotOf "n1") x.drain.site.tree y.drain.site.tree) ∧
    (y.settled → Clean "n1" y.drain.site) := by
  have hlive : uploadedSite.db.lifecycle "n1" = .live := by decide +kernel
  have hontime : Trace.Along (step .ascii oneRow "n1") (fun x move => timely x move)
      (start uploadedSite StagingWriter.freshDeduper)
      (workerMoves 9 ++ routeMoves 1 ++ lateRoute) := by decide +kernel
  exact ⟨hlive, withdrawal_complete .ascii oneRow "n1" uploadedSite StagingWriter.freshDeduper
    (workerMoves 9 ++ routeMoves 1) lateRoute hlive hontime⟩

/-- The deletion falls into the parse: the worker then stages the row and archives its series. -/
theorem survey_resurrected :
    ¬ ∀ (rt : Runtime) (parseFile : Parser) (id : String) (site : Site) (dedupe : Deduper)
      (before after : List Move), site.db.lifecycle id = .live →
      let x := before.foldl (step rt parseFile id) (start site dedupe)
      let y := after.foldl (step rt parseFile id) x
      (x.phase ≠ .pending → StagingTree.Appends (NotOf id) x.drain.site.tree y.drain.site.tree) ∧
      (y.settled → Clean id y.drain.site) := by
  intro h
  let x := (workerMoves 3 ++ routeMoves 3).foldl (step .ascii oneRow "n1")
    (start uploadedSite StagingWriter.freshDeduper)
  let y := (workerMoves 4).foldl (step .ascii oneRow "n1") x
  have hlive : uploadedSite.db.lifecycle "n1" = .live := by decide +kernel
  have hsettled : y.settled = true := by decide +kernel
  have hfile : ((y.drain.site.surveys.archive.lookup "n1").bind
      (·.lookup "extracted_2026-07-10T093000Z.csv")).isSome = true := by decide +kernel
  obtain ⟨-, hclean⟩ := h .ascii oneRow "n1" uploadedSite StagingWriter.freshDeduper
    (workerMoves 3 ++ routeMoves 3) (workerMoves 4) hlive
  rw [(hclean hsettled).2] at hfile
  cases hfile

end Withdrawal

end GridWitness.Survey
