import GridWitness.Survey.FolderLaws

namespace GridWitness.Survey

open Library Server

/-- The upload has done the head of its list of files. -/
def Progress.Of (job : Job) : Progress → Prop
  | .provision => True
  | .makeInbox => True
  | .next done todo => done ++ todo.map (fun f => (f.1, f.2.flatten)) = job.whole
  | .writing done name written left todo _ =>
    done ++ (name, written ++ left.flatten) :: todo.map (fun f => (f.1, f.2.flatten)) = job.whole
  | .finished done => done = job.whole
  | .failed done => done <+: job.whole

theorem Progress.not_busy {p : Progress} (h : p.isOver = true) : p.busy = false := by
  cases p <;> first | rfl | cases h

theorem Progress.Of.begins {job : Job} {p : Progress} (h : p.Of job) : p.done <+: job.whole := by
  cases p with
  | provision => exact List.nil_prefix
  | makeInbox => exact List.nil_prefix
  | next done todo => exact ⟨_, h⟩
  | writing done name written left todo place => exact ⟨_, h⟩
  | finished done => exact h ▸ List.prefix_refl _
  | failed done => exact h

/-- What the volume holds for an upload that stands at a point. -/
def Progress.Ready (job : Job) (d : Drain) : Progress → Prop
  | .makeInbox => (d.site.db.getNode job.id).isSome
  | .next _ _ => (d.site.surveys.inbox.lookup job.id).isSome
  | .writing _ name written _ _ place =>
    place = .inbox ∧ d.inboxFile job.id name = some (.raw written)
  | _ => True

theorem Progress.Ready.present {job : Job} {d : Drain} {p : Progress} (h : p.Ready job d)
    (hbusy : p.busy = true) : (d.site.surveys.inbox.lookup job.id).isSome := by
  cases p with
  | next done todo => exact h
  | writing done name written left todo place =>
    obtain ⟨folder, hfolder, -⟩ := Option.bind_eq_some_iff.mp h.2
    rw [hfolder]
    rfl
  | _ => cases hbusy

theorem Progress.Ready.of_site {job : Job} {d d' : Drain} {p : Progress} (h : p.Ready job d)
    (hsite : d'.site = d.site) : p.Ready job d' := by
  cases p with
  | makeInbox =>
    rw [Ready, hsite]
    exact h
  | next done todo =>
    rw [Ready, hsite]
    exact h
  | writing done name written left todo place =>
    rw [Ready, Drain.inboxFile, hsite]
    exact h
  | _ => trivial

/-- The worker may take a step that keeps the folder of a busy upload and leaves its open file. -/
theorem Progress.Ready.relocate {job : Job} {d d' : Drain} {p : Progress} (h : p.Ready job d)
    {f : String → Place → Place} (hdb : d'.site.db = d.site.db)
    (hpresent : p.busy = true → (d'.site.surveys.inbox.lookup job.id).isSome)
    (hopen : ∀ done name written left todo, p = .writing done name written left todo .inbox →
      f name .inbox = .inbox ∧ d'.inboxFile job.id name = d.inboxFile job.id name) :
    (p.relocate f).Ready job d' := by
  cases p with
  | makeInbox =>
    have hnode : (d'.site.db.getNode job.id).isSome := hdb ▸ h
    exact hnode
  | next done todo => exact hpresent rfl
  | writing done name written left todo place =>
    obtain ⟨rfl, hfile⟩ := h
    obtain ⟨hplace, hsame⟩ := hopen _ _ _ _ _ rfl
    exact ⟨hplace, hsame.trans hfile⟩
  | _ => trivial

/-- The files of the running survey the worker has still to move. -/
def WorkerStage.handled (id : String) : WorkerStage → List String
  | .survey id' _ (.parsed _ w) => if id' = id then w.handled else []
  | .survey id' _ (.staged _ w _ _) => if id' = id then w.handled else []
  | .survey id' _ (.archiving _ w _ _) => if id' = id then w.handled else []
  | .survey id' _ (.moving _ _ _ _ remaining) => if id' = id then remaining else []
  | .reading id' _ _ _ _ work => if id' = id then work.handled else []
  | _ => []

/-- The files of the running survey that are still in the inbox for all the worker did. -/
def WorkerStage.due (id : String) : WorkerStage → Option (List String)
  | .survey id' _ (.parsed _ w) => if id' = id then some (w.handled ++ w.deferred) else none
  | .survey id' _ (.staged _ w _ _) => if id' = id then some (w.handled ++ w.deferred) else none
  | .survey id' _ (.archiving _ w _ _) => if id' = id then some (w.handled ++ w.deferred) else none
  | .survey id' _ (.moving _ w _ _ remaining) =>
    if id' = id then some (remaining ++ w.deferred) else none
  | .survey id' _ (.cleaning _ _) => if id' = id then some [] else none
  | .reading id' _ _ _ names work =>
    if id' = id then some (work.handled ++ work.deferred ++ names) else none
  | _ => none

/-- The survey is found withdrawn. -/
def WorkerStage.Purges (id : String) : WorkerStage → Prop
  | .survey id' _ .withdrawn => id' = id
  | .survey id' _ .purging => id' = id
  | _ => False

/-- The surveys of the running drain. -/
def WorkerStage.listed : WorkerStage → List String
  | .idle => []
  | .draining remaining => remaining
  | .survey id remaining _ => id :: remaining
  | .reading id remaining _ _ _ _ => id :: remaining

namespace Intake

variable (job : Job) (x : Intake)

/-- A survey is processed whole. -/
structure Whole : Prop where
  kept : ∀ f ∈ x.upload.done, x.drain.inboxFile job.id f.1 = some (.raw f.2) ∨
    x.drain.archiveFile job.id f.1 = some (.raw f.2) ∧ (f.1, .raw f.2) ∈ x.offered
  archived : ∀ name ∈ job.files.map (·.1), ∀ content,
    x.drain.archiveFile job.id name = some content →
      ∃ f ∈ x.upload.done, f.1 = name ∧ content = .raw f.2
  present : x.upload.busy = true → (x.drain.site.surveys.inbox.lookup job.id).isSome
  accepted : ∀ done, x.upload = .finished done → done = job.whole

/-- The worker moves no file it has read before the upload closed it, and removes the folder only
when the upload is over and every file it wrote was there at some listing. -/
def timely : IntakeEvent → Bool
  | .worker _ _ =>
    match x.worker with
    | .survey id _ (.moving _ _ _ _ (name :: _)) => id ≠ job.id || name ∉ x.early
    | .survey id _ (.cleaning _ _) =>
      id ≠ job.id ||
        x.upload.isOver && x.upload.done.all fun f => decide (f.1 ∈ x.listed)
    | _ => true
  | _ => true

/-- What holds between two steps. -/
structure Inv : Prop where
  progress : x.upload.Of job
  filed : Filed job.id (job.files.map (·.1)) x.upload.done x.offered x.drain
  listing : Listed job.id x.listed x.upload.done x.drain (x.worker.due job.id)
  ready : x.upload.Ready job x.drain
  live : (x.drain.site.surveys.inbox.lookup job.id).isSome ∨ job.id ∈ x.worker.listed →
    (x.drain.site.db.getNode job.id).isSome
  sound : ∀ name ∈ x.worker.handled job.id, name ∉ x.early →
    ∃ f ∈ x.upload.done, f.1 = name ∧ (name, .raw f.2) ∈ x.offered
  kept : ¬x.worker.Purges job.id

variable {job x}

theorem whole_of_inv (h : Inv job x) : Whole job x where
  kept := h.filed.kept
  archived := h.filed.archived
  present := h.ready.present
  accepted done hdone := by
    have hprogress := h.progress
    rw [hdone] at hprogress
    exact hprogress

theorem Inv.nodup (h : Inv job x) : (x.upload.done.map (·.1)).Nodup := by
  refine List.Nodup.sublist (h.progress.begins.sublist.map _) ?_
  rw [Job.whole, List.map_map]
  exact job.nodup

theorem Inv.names (h : Inv job x) : ∀ f ∈ x.upload.done, f.1 ∈ job.files.map (·.1) := by
  intro f hf
  have hmem := h.progress.begins.sublist.subset hf
  obtain ⟨g, hg, rfl⟩ := List.mem_map.mp hmem
  exact List.mem_map_of_mem hg

theorem createNode_made (db : Database) (now : String) (n : NewNode)
    (h : (db.getNode n.nodeId).isSome ∨ (db.createNode now n).2 = true) :
    ((db.createNode now n).1.getNode n.nodeId).isSome := by
  cases hnodes : db.nodes.insertRow n.nodeId (Database.nodeRow now n) with
  | none =>
    simp only [Database.createNode, hnodes] at h ⊢
    exact h.resolve_right Bool.false_ne_true
  | some nodes =>
    have hlookup : nodes.lookup n.nodeId = some (Database.nodeRow now n) := by
      rw [(Table.insertRow_eq_some hnodes).2, if_pos rfl]
    have hget : ∀ db' : Database, db'.nodes = nodes → (db'.getNode n.nodeId).isSome := fun db' hdb => by
      simp [Database.getNode, hdb, hlookup, Database.nodeRow]
    simp only [Database.createNode, hnodes]
    split
    · exact hget _ rfl
    · split <;> exact hget _ rfl

theorem whole_fresh {done rest : List (String × Bytes)} {name : String} {bytes : Bytes}
    (h : done ++ (name, bytes) :: rest = job.whole) : ∀ f ∈ done, f.1 ≠ name := by
  have hnodup : (job.whole.map (·.1)).Nodup := by
    rw [Job.whole, List.map_map]
    exact job.nodup
  rw [← h, List.map_append, List.map_cons] at hnodup
  intro f hf heq
  exact List.disjoint_of_nodup_append hnodup (List.mem_map_of_mem hf) (heq ▸ List.mem_cons_self)

theorem whole_mem {done rest : List (String × Bytes)} {name : String} {bytes : Bytes}
    (h : done ++ (name, bytes) :: rest = job.whole) : name ∈ job.files.map (·.1) := by
  have hmem : (name, bytes) ∈ job.whole := by
    rw [← h]
    exact List.mem_append_right _ List.mem_cons_self
  obtain ⟨f, hf, heq⟩ := List.mem_map.mp hmem
  cases heq
  exact List.mem_map_of_mem hf

/-- The inbox file of a job is written under another name than every file that is done. -/
theorem Inv.writeInbox (h : Inv job x) {name : String} {content : Content} {drain : Drain}
    (hwrite : x.drain.writeInbox job.id name content = some drain) {offered : List (String × Content)}
    (hnew : ∀ f ∈ x.upload.done, f.1 ≠ name) (hoffered : x.offered = offered) :
    Filed job.id (job.files.map (·.1)) x.upload.done offered drain ∧
      Listed job.id x.listed x.upload.done drain (x.worker.due job.id) ∧
      (drain.site.surveys.inbox.lookup job.id).isSome ∧
      (drain.site.db.getNode job.id).isSome := by
  have hdone : name ∉ x.upload.done.map (·.1) := fun hmem => by
    obtain ⟨f, hf, heq⟩ := List.mem_map.mp hmem
    exact hnew f hf heq
  refine ⟨hoffered ▸ h.filed.writeInbox hwrite hnew,
    h.listing.writeInbox hwrite hdone (Narrows.refl _),
    Drain.writeInbox_folder hwrite, ?_⟩
  rw [(Drain.writeInbox_frame hwrite).1]
  refine h.live (Or.inl ?_)
  rw [← @Drain.writeInbox_isSome _ _ name content, hwrite]
  rfl

theorem failure_inv (h : Inv job x) : Inv job { x with upload := .failed x.upload.done } :=
  ⟨h.progress.begins, h.filed, h.listing, trivial, h.live, h.sound, h.kept⟩

theorem upload_inv (h : Inv job x) : Inv job (x.uploadStep job) := by
  obtain ⟨drain, worker, upload, offered, listed, early⟩ := x
  cases upload with
  | provision =>
    have hlive := fun hin => createNode_made drain.site.db job.now job.node (Or.inl (h.live hin))
    have hmade := fun hcreated =>
      createNode_made drain.site.db job.now job.node (Or.inr hcreated)
    simp only [uploadStep]
    generalize drain.site.db.createNode job.now job.node = after at hlive hmade
    obtain ⟨db, created⟩ := after
    have hfiled : Filed job.id (job.files.map (·.1)) [] offered
        { drain with site := { drain.site with db } } :=
      h.filed.of_files (fun _ => rfl) fun _ => rfl
    have hlisting : Listed job.id listed [] { drain with site := { drain.site with db } }
        (worker.due job.id) := ⟨h.listing.plain, h.listing.seen, h.listing.due⟩
    cases created with
    | true => exact ⟨trivial, hfiled, hlisting, hmade rfl, hlive, h.sound, h.kept⟩
    | false => exact ⟨List.nil_prefix, hfiled, hlisting, trivial, hlive, h.sound, h.kept⟩
  | makeInbox =>
    have hfiled := h.filed.of_files (fun n => Drain.makeInbox_file n) fun _ => rfl
    have hlisting := h.listing.of_files (fun n => Drain.makeInbox_file n) (Narrows.refl _)
    refine ⟨List.nil_append _, hfiled, hlisting, ?_, fun _ => h.ready, h.sound, h.kept⟩
    simp [uploadStep, Progress.Ready, Drain.withInbox, Table.lookup_replaceRow]
  | next done todo =>
    cases todo with
    | nil =>
      simp only [uploadStep]
      cases hwrite : drain.writeInbox job.id "manifest.json" (.manifest job.manifest) with
      | none => exact failure_inv h
      | some drain' =>
        have hnew : ∀ f ∈ done, f.1 ≠ "manifest.json" := fun f hf => (job.plain _ (h.names f hf)).1
        obtain ⟨hfiled, hlisting, -, hlive⟩ := h.writeInbox hwrite hnew rfl
        refine ⟨?_, hfiled, hlisting, trivial, fun _ => hlive, h.sound, h.kept⟩
        have hprogress : done ++ [] = job.whole := h.progress
        rwa [List.append_nil] at hprogress
    | cons file todo =>
      obtain ⟨name, chunks⟩ := file
      simp only [uploadStep]
      cases hwrite : drain.writeInbox job.id name (.raw []) with
      | none => exact failure_inv h
      | some drain' =>
        have hnew : ∀ f ∈ done, f.1 ≠ name := whole_fresh h.progress
        obtain ⟨hfiled, hlisting, -, hlive⟩ := h.writeInbox hwrite hnew rfl
        refine ⟨h.progress, hfiled, hlisting, ⟨rfl, ?_⟩, fun _ => hlive, h.sound, h.kept⟩
        rw [Drain.writeInbox_file hwrite, if_pos rfl]
  | writing done name written left todo place =>
    obtain ⟨rfl, hfile⟩ := id h.ready
    have hfolder := h.ready.present rfl
    cases left with
    | nil =>
      refine ⟨?_, h.filed.close hfile, h.listing.close _, hfolder, h.live,
        fun name hname hearly => ?_, h.kept⟩
      · have hprogress : done ++ (name, written ++ []) :: _ = job.whole := h.progress
        rw [List.append_nil] at hprogress
        exact (List.append_assoc _ _ _).trans hprogress
      · obtain ⟨f, hf, hoffered⟩ := h.sound name hname hearly
        exact ⟨f, List.mem_append_left _ hf, hoffered⟩
    | cons chunk left =>
      have hwritable : (drain.writeInbox job.id name (.raw (written ++ chunk))).isSome := by
        rw [Drain.writeInbox_isSome]
        exact hfolder
      obtain ⟨drain', hwrite⟩ := Option.isSome_iff_exists.mp hwritable
      obtain ⟨hfiled, hlisting, -, hlive⟩ := h.writeInbox hwrite (whole_fresh h.progress) rfl
      simp only [uploadStep, Drain.rewrite, hwrite, Option.getD_some]
      refine ⟨?_, hfiled, hlisting, ⟨rfl, ?_⟩, fun _ => hlive, h.sound, h.kept⟩
      · have hprogress : done ++ (name, written ++ (chunk :: left).flatten) :: _ = job.whole :=
          h.progress
        rw [List.flatten_cons, ← List.append_assoc] at hprogress
        exact hprogress
      · rw [Drain.writeInbox_file hwrite, if_pos rfl]
  | finished done => exact h
  | failed done => exact h

/-- A step of the worker that leaves the files of the upload in order. -/
theorem Inv.advance (h : Inv job x) {d : Drain} {worker : WorkerStage} {f : String → Place → Place}
    (hdb : d.site.db = x.drain.site.db)
    (hfiled : Filed job.id (job.files.map (·.1)) x.upload.done x.offered d)
    (hlisting : Listed job.id x.listed x.upload.done d (worker.due job.id))
    (hpresent : x.upload.busy = true → (d.site.surveys.inbox.lookup job.id).isSome)
    (hlive : (d.site.surveys.inbox.lookup job.id).isSome ∨ job.id ∈ worker.listed →
      (x.drain.site.db.getNode job.id).isSome)
    (hopen : ∀ done name written left todo,
      x.upload = .writing done name written left todo .inbox →
        f name .inbox = .inbox ∧ d.inboxFile job.id name = x.drain.inboxFile job.id name)
    (hsound : ∀ name ∈ worker.handled job.id, name ∈ x.worker.handled job.id)
    (hkept : ¬worker.Purges job.id) :
    Inv job { x with drain := d, worker, upload := x.upload.relocate f } := by
  have hdone : (x.upload.relocate f).done = x.upload.done := by cases x.upload <;> rfl
  refine ⟨?_, hdone ▸ hfiled, hdone ▸ hlisting, h.ready.relocate hdb hpresent hopen, fun hin => ?_,
    fun name hname hearly => ?_, hkept⟩
  · have hprogress := h.progress
    cases hupload : x.upload <;> rw [hupload] at hprogress <;> exact hprogress
  · rw [hdb]
    exact hlive hin
  · rw [hdone]
    exact h.sound name (hsound name hname) hearly

section Survey

variable {rt : Runtime} {parseFile : Parser} {id : String} {remaining : List String}
  {stage stage' : Stage} {d : Drain}

/-- A step of another survey. -/
theorem other_inv (h : Inv job x) (hworker : x.worker = .survey id remaining stage)
    (heffect : Effect rt parseFile id x.drain stage d stage') (hne : job.id ≠ id) :
    Inv job { x with drain := d, worker := .survey id remaining stage' } := by
  obtain ⟨hinbox, harchive⟩ := heffect.other hne
  have hfile : ∀ n, d.inboxFile job.id n = x.drain.inboxFile job.id n := fun n => by
    rw [Drain.inboxFile, hinbox, Drain.inboxFile]
  have harchived : ∀ n, d.archiveFile job.id n = x.drain.archiveFile job.id n := fun n => by
    rw [Drain.archiveFile, harchive, Drain.archiveFile]
  have hlive : (d.site.surveys.inbox.lookup job.id).isSome ∨ job.id ∈ id :: remaining →
      (x.drain.site.db.getNode job.id).isSome := by
    rw [hinbox]
    refine fun hin => h.live (hin.imp_right fun hlisted => ?_)
    rw [hworker]
    exact hlisted
  have hnone : ∀ stage'', (WorkerStage.survey id remaining stage'').handled job.id = [] := by
    intro stage''
    cases stage'' <;> first | rfl | exact if_neg (Ne.symm hne)
  have hkept : ¬(WorkerStage.survey id remaining stage').Purges job.id := by
    cases stage' <;> first | exact not_false | exact Ne.symm hne
  have hdue : (WorkerStage.survey id remaining stage').due job.id = none := by
    cases stage' <;> first | rfl | exact if_neg (Ne.symm hne)
  have hlisting : Listed job.id x.listed x.upload.done d
      ((WorkerStage.survey id remaining stage').due job.id) :=
    h.listing.of_files hfile (by rw [hdue]; trivial)
  have hadvance : Inv job
      { x with
        drain := d
        worker := .survey id remaining stage'
        upload := x.upload.relocate fun _ p => p } := h.advance heffect.db_eq
    (h.filed.of_files hfile harchived) hlisting (fun hbusy => hinbox ▸ h.ready.present hbusy) hlive
    (fun _ name _ _ _ _ => ⟨rfl, hfile name⟩) (fun name hname => by
      rw [hnone] at hname
      cases hname) hkept
  have hsame : x.upload.relocate (fun _ p => p) = x.upload := by cases x.upload <;> rfl
  rw [hsame] at hadvance
  exact hadvance

/-- The removal of the folder. -/
theorem clean_inv (h : Inv job x) {accepted files : Nat}
    (hworker : x.worker = .survey job.id remaining (.cleaning accepted files))
    (hover : x.upload.isOver = true)
    (hall : ∀ f ∈ x.upload.done, f.1 ∈ x.listed) {outcome : Outcome}
    (f : String → Place → Place) :
    Inv job
      { x with
        drain := x.drain.withInbox (x.drain.site.surveys.inbox.deleteRow job.id)
        worker := .survey job.id remaining (.finished outcome)
        upload := x.upload.relocate f } := by
  have hlisting : Listed job.id x.listed x.upload.done x.drain (some []) := by
    have hlisting := h.listing
    rwa [hworker, WorkerStage.due, if_pos rfl] at hlisting
  refine h.advance rfl (h.filed.removeInbox (hlisting.none_left hall)) hlisting.removeInbox (fun hbusy => ?_)
    (fun _ => ?_)
    (fun done name written left todo hwriting => ?_) (List.nil_subset _) id
  · rw [Progress.not_busy hover] at hbusy
    cases hbusy
  · refine h.live (Or.inr ?_)
    rw [hworker]
    exact List.mem_cons_self
  · rw [hwriting] at hover
    cases hover

/-- The node of a survey under way is live. -/
theorem Inv.node (h : Inv job x) (hworker : x.worker = .survey job.id remaining stage) :
    (x.drain.site.db.getNode job.id).isSome := by
  refine h.live (Or.inr ?_)
  rw [hworker]
  exact List.mem_cons_self

/-- The file an upload has open is none it has closed, and not the manifest. -/
theorem Inv.opened (h : Inv job x) {done : List (String × Bytes)} {name : String} {written : Bytes}
    {left : List Bytes} {todo : List (String × List Bytes)} {p : Place}
    (hupload : x.upload = .writing done name written left todo p) :
    (∀ f ∈ x.upload.done, f.1 ≠ name) ∧ name ≠ "manifest.json" := by
  have hprogress := h.progress
  rw [hupload] at hprogress ⊢
  exact ⟨whole_fresh hprogress, (job.plain name (whole_mem hprogress)).1⟩

/-- A step that leaves the inbox alone. -/
theorem Inv.stay (h : Inv job x) (hworker : x.worker = .survey job.id remaining stage)
    (hdb : d.site.db = x.drain.site.db)
    (hinbox : d.site.surveys.inbox = x.drain.site.surveys.inbox)
    (hfiled : Filed job.id (job.files.map (·.1)) x.upload.done x.offered d)
    (hplace : ∀ name, place stage stage' name .inbox = .inbox)
    (hsound : (WorkerStage.survey job.id remaining stage').handled job.id ⊆
      (WorkerStage.survey job.id remaining stage).handled job.id)
    (hdue : Narrows ((WorkerStage.survey job.id remaining stage).due job.id)
      ((WorkerStage.survey job.id remaining stage').due job.id))
    (hkept : ¬(WorkerStage.survey job.id remaining stage').Purges job.id) :
    Inv job
      { x with
        drain := d
        worker := .survey job.id remaining stage'
        upload := x.upload.relocate (place stage stage') } := by
  have hfile : ∀ n, d.inboxFile job.id n = x.drain.inboxFile job.id n := fun n => by
    rw [Drain.inboxFile, hinbox, Drain.inboxFile]
  rw [← hworker] at hsound hdue
  refine h.advance hdb hfiled (h.listing.of_files hfile hdue) (fun hbusy => ?_)
    (fun _ => h.node hworker) (fun _ name _ _ _ _ => ⟨hplace name, hfile name⟩) hsound hkept
  rw [hinbox]
  exact h.ready.present hbusy

/-- A file is moved that was closed when it was read. -/
theorem move_inv (h : Inv job x) {m : Manifest} {w : Work} {accepted dups : Nat} {name : String}
    {rest : List String}
    (hworker : x.worker = .survey job.id remaining (.moving m w accepted dups (name :: rest)))
    (hmoved : x.drain.moveFile job.id name = some d) (hclosed : name ∉ x.early) :
    Inv job
      { x with
        drain := d
        worker := .survey job.id remaining (.moving m w accepted dups rest)
        upload := x.upload.relocate
          (place (.moving m w accepted dups (name :: rest)) (.moving m w accepted dups rest)) } := by
  have hqueue : x.worker.handled job.id = name :: rest := by
    rw [hworker]
    exact if_pos rfl
  obtain ⟨f, hf, rfl, hoffered⟩ := h.sound name (hqueue ▸ List.mem_cons_self) hclosed
  obtain ⟨content, -, hfolder, hinbox, -⟩ := Drain.moveFile_file hmoved
  have hlisting : Listed job.id x.listed x.upload.done d (some (rest ++ w.deferred)) := by
    refine Listed.moveFile ?_ hmoved (List.mem_map_of_mem hf)
    have hlisting := h.listing
    rwa [hworker, WorkerStage.due, if_pos rfl] at hlisting
  refine h.advance (Drain.moveFile_frame hmoved).1 (h.filed.moveFile hmoved h.nodup hf rfl hoffered)
    (by rwa [WorkerStage.due, if_pos rfl]) (fun _ => hfolder) (fun _ => h.node hworker)
    (fun done name written left todo hupload => ?_) (fun name hname => ?_) id
  · -- the open file is another one
    have hne := (h.opened hupload).1 f hf
    exact ⟨if_neg hne, by rw [hinbox, if_neg (Ne.symm hne)]⟩
  · rw [WorkerStage.handled, if_pos rfl] at hname
    exact hqueue ▸ List.mem_cons_of_mem _ hname

/-- The manifest of a pending survey is written beside the files that are left. -/
theorem pend_inv (h : Inv job x) {m : Manifest} {w : Work} {accepted dups : Nat}
    {content : Content} {outcome : Outcome}
    (hworker : x.worker = .survey job.id remaining (.moving m w accepted dups []))
    (hwritten : x.drain.writeInbox job.id "manifest.json" content = some d) :
    Inv job
      { x with
        drain := d
        worker := .survey job.id remaining (.finished outcome)
        upload := x.upload.relocate (place (.moving m w accepted dups []) (.finished outcome)) } := by
  have hnew : ∀ f ∈ x.upload.done, f.1 ≠ "manifest.json" := fun f hf => (job.plain _ (h.names f hf)).1
  have hlisting : Listed job.id x.listed x.upload.done d none :=
    (h.writeInbox hwritten hnew rfl).2.1.of_files (fun _ => rfl) trivial
  refine h.advance (Drain.writeInbox_frame hwritten).1 (h.filed.writeInbox hwritten hnew) hlisting
    (fun _ => Drain.writeInbox_folder hwritten) (fun _ => h.node hworker)
    (fun done name written left todo hupload => ⟨rfl, ?_⟩) (List.nil_subset _) id
  rw [Drain.writeInbox_file hwritten, if_neg (h.opened hupload).2]

/-- Any step of the survey of the upload but the listing and the removal of the folder. -/
theorem own_inv (h : Inv job x) (hworker : x.worker = .survey job.id remaining stage)
    (heffect : Effect rt parseFile job.id x.drain stage d stage')
    (hloaded : ∀ m node, stage ≠ .loaded m node)
    (hclean : ∀ accepted files, stage ≠ .cleaning accepted files)
    (hmove : ∀ m w accepted dups name rest, stage = .moving m w accepted dups (name :: rest) →
      name ∉ x.early) :
    Inv job
      { x with
        drain := d
        worker := .survey job.id remaining stage'
        upload := x.upload.relocate (place stage stage') } := by
  have hkept : ¬(WorkerStage.survey job.id remaining stage).Purges job.id := hworker ▸ h.kept
  have hplain : ∀ now, extractedName now ∉ job.files.map (·.1) := fun now hname =>
    (job.plain _ hname).2 now rfl
  have hmanifest : "manifest.json" ∉ job.files.map (·.1) := fun hname => (job.plain _ hname).1 rfl
  have hsame : ∀ d : Drain, d.site.surveys = x.drain.site.surveys →
      Filed job.id (job.files.map (·.1)) x.upload.done x.offered d := fun d hsurveys =>
    h.filed.of_files (fun n => by rw [Drain.inboxFile, hsurveys, Drain.inboxFile])
      fun n => by rw [Drain.archiveFile, hsurveys, Drain.archiveFile]
  cases heffect with
  | fail =>
    refine h.stay hworker rfl rfl h.filed (fun name => ?_) (List.nil_subset _) trivial id
    cases stage with
    | withdrawn => exact absurd rfl hkept
    | cleaning accepted files => exact absurd rfl (hclean accepted files)
    | moving m w accepted dups rest => cases rest <;> rfl
    | _ => rfl
  | describe =>
    exact h.stay hworker rfl rfl h.filed (fun _ => rfl) (List.nil_subset _) trivial id
  | load hlive =>
    exact h.stay hworker rfl rfl h.filed (fun _ => rfl) (List.nil_subset _) trivial id
  | withdraw hgone =>
    have hnode := h.node hworker
    rw [hgone] at hnode
    cases hnode
  | purgeInbox => exact absurd rfl hkept
  | purgeArchive => exact absurd rfl hkept
  | parse m node w => exact absurd rfl (hloaded m node)
  | write m w fault result hwritten hnext =>
    subst hnext
    cases result with
    | none =>
      exact h.stay hworker rfl rfl (hsame _ rfl) (fun _ => rfl) (List.nil_subset _) trivial id
    | some counts =>
      exact h.stay hworker rfl rfl (hsame _ rfl) (fun _ => rfl) (List.Subset.refl _)
        (Narrows.refl _) id
  | makeArchive =>
    have hfiled : Filed job.id (job.files.map (·.1)) x.upload.done x.offered
        (x.drain.makeArchive job.id) :=
      h.filed.of_files (fun _ => rfl) fun n => Drain.makeArchive_file n
    exact h.stay hworker rfl rfl hfiled (fun _ => rfl) (List.Subset.refl _) (Narrows.refl _) id
  | skip hempty =>
    exact h.stay hworker rfl rfl h.filed (fun _ => rfl) (List.Subset.refl _) (Narrows.refl _) id
  | extract hrows hwritten =>
    obtain ⟨hdb, -, -, hinbox⟩ := Drain.writeArchive_frame hwritten
    exact h.stay hworker hdb hinbox (h.filed.writeArchive hwritten (hplain _) h.names) (fun _ => rfl)
      (List.Subset.refl _) (Narrows.refl _) id
  | move hmoved => exact move_inv h hworker hmoved (hmove _ _ _ _ _ _ rfl)
  | record hdone hwritten =>
    obtain ⟨hdb, -, -, hinbox⟩ := Drain.writeArchive_frame hwritten
    refine h.stay hworker hdb hinbox (h.filed.writeArchive hwritten hmanifest h.names) (fun _ => rfl)
      (List.nil_subset _) ?_ id
    rw [WorkerStage.due, if_pos rfl, WorkerStage.due, if_pos rfl, hdone]
    exact Narrows.refl _
  | pend hleft hwritten => exact pend_inv h hworker hwritten
  | clean => exact absurd rfl (hclean _ _)
  | done => exact h.stay hworker rfl rfl h.filed (fun _ => rfl) (List.nil_subset _) trivial id

end Survey

/-- A step of the worker that leaves the volume alone. -/
theorem Inv.turn (h : Inv job x) {d : Drain} {worker : WorkerStage} (hsite : d.site = x.drain.site)
    (hlive : job.id ∈ worker.listed → (x.drain.site.db.getNode job.id).isSome)
    (hsound : ∀ name ∈ worker.handled job.id, name ∉ x.early →
      ∃ f ∈ x.upload.done, f.1 = name ∧ (name, .raw f.2) ∈ x.offered)
    (hdue : Narrows (x.worker.due job.id) (worker.due job.id))
    (hkept : ¬worker.Purges job.id) : Inv job { x with drain := d, worker } where
  progress := h.progress
  filed := h.filed.of_files (fun n => by rw [Drain.inboxFile, hsite, Drain.inboxFile])
    fun n => by rw [Drain.archiveFile, hsite, Drain.archiveFile]
  listing := h.listing.of_files (fun n => by rw [Drain.inboxFile, hsite, Drain.inboxFile]) hdue
  ready := h.ready.of_site hsite
  live := by
    rw [hsite]
    exact fun hin => hin.elim (fun hin => h.live (Or.inl hin)) hlive
  sound := hsound
  kept := hkept

/-- As before, where the worker has no file of the survey in hand. -/
theorem Inv.free (h : Inv job x) {d : Drain} {worker : WorkerStage} (hsite : d.site = x.drain.site)
    (hlive : job.id ∈ worker.listed → (x.drain.site.db.getNode job.id).isSome)
    (hhandled : worker.handled job.id = []) (hdue : worker.due job.id = none)
    (hkept : ¬worker.Purges job.id) : Inv job { x with drain := d, worker } := by
  refine h.turn hsite hlive (fun name hname => ?_) ?_ hkept
  · rw [hhandled] at hname
    exact absurd hname List.not_mem_nil
  · rw [hdue]
    trivial

theorem readFile_cases {parseFile : Parser} {node : Node} {name : String} {content : Content}
    {w w' : Work} (h : readFile parseFile node name content w = some w') :
    w'.handled = w.handled ∧ w'.deferred = w.deferred ++ [name] ∨
      w'.handled = w.handled ++ [name] ∧ w'.deferred = w.deferred := by
  simp only [readFile] at h
  split at h
  · cases h
  · split at h
    · cases h
      exact Or.inl ⟨rfl, rfl⟩
    · obtain ⟨rows, -, rfl⟩ := Option.map_eq_some_iff.mp h
      exact Or.inr ⟨rfl, rfl⟩

theorem read_inv (h : Inv job x) (name : String) (content : Content) :
    Inv job (x.read name content) where
  progress := h.progress
  filed := h.filed.offer (List.subset_cons_self _ _)
  listing := h.listing
  ready := h.ready
  live := h.live
  kept := h.kept
  sound n hn hearly := by
    have hearly' : n ∉ x.early := by
      simp only [read] at hearly
      split at hearly
      · exact hearly
      · exact fun hmem => hearly (List.mem_cons_of_mem _ hmem)
    obtain ⟨f, hf, hname, hoffered⟩ := h.sound n hn hearly'
    exact ⟨f, hf, hname, List.mem_cons_of_mem _ hoffered⟩

/-- A file that is read and was closed is given whole to the parser. -/
theorem read_sound (h : Inv job x) {name : String} {content : Content}
    (hcontent : x.drain.inboxFile job.id name = some content)
    (hearly : name ∉ (x.read name content).early) :
    ∃ f ∈ x.upload.done, f.1 = name ∧ (name, .raw f.2) ∈ (x.read name content).offered := by
  simp only [read] at hearly
  split at hearly
  · next hdone =>
    obtain ⟨f, hf, rfl⟩ := List.mem_map.mp hdone
    obtain rfl := h.filed.same f hf content hcontent
    exact ⟨f, hf, rfl, List.mem_cons_self⟩
  · exact absurd List.mem_cons_self hearly

/-- The worker lists the files of a survey. -/
theorem list_inv (h : Inv job x) {remaining : List String} {m : Manifest} {node : Node}
    (hworker : x.worker = .survey job.id remaining (.loaded m node)) {folder : Folder}
    (hfolder : x.drain.site.surveys.inbox.lookup job.id = some folder) :
    Inv job
      { x with
        listed := dataNames folder ++ x.listed
        early := []
        worker := .reading job.id remaining m node (dataNames folder) ⟨[], [], [], []⟩ } where
  progress := h.progress
  filed := h.filed
  listing := by
    have hdue : (WorkerStage.reading job.id remaining m node (dataNames folder)
        ⟨[], [], [], []⟩).due job.id = some (dataNames folder) := if_pos rfl
    exact hdue ▸ h.listing.list hfolder
  ready := h.ready
  live _ := by
    refine h.live (Or.inr ?_)
    rw [hworker]
    exact List.mem_cons_self
  sound n hn := by
    have hhandled : (WorkerStage.reading job.id remaining m node (dataNames folder)
        ⟨[], [], [], []⟩).handled job.id = [] := if_pos rfl
    exact absurd (hhandled ▸ hn) List.not_mem_nil
  kept := id

/-- The worker reads the next file it has listed. -/
theorem reading_inv (h : Inv job x) {remaining names : List String} {m : Manifest} {node : Node}
    {name : String} {work : Work} {content : Content} (parseFile : Parser)
    (hworker : x.worker = .reading job.id remaining m node (name :: names) work)
    (hcontent : x.drain.inboxFile job.id name = some content) :
    Inv job
      { x.read name content with
        worker := match readFile parseFile node name content work with
          | none => .survey job.id remaining (.finished .error)
          | some work => .reading job.id remaining m node names work } := by
  have hread := read_inv h name content
  have hlive : (x.drain.site.db.getNode job.id).isSome := by
    refine h.live (Or.inr ?_)
    rw [hworker]
    exact List.mem_cons_self
  have hhandled : (x.read name content).worker.handled job.id = work.handled := by
    rw [read, hworker, WorkerStage.handled, if_pos rfl]
  have hdue : (x.read name content).worker.due job.id =
      some (work.handled ++ work.deferred ++ name :: names) := by
    rw [read, hworker, WorkerStage.due, if_pos rfl]
  cases hwork : readFile parseFile node name content work with
  | none =>
    exact hread.free (d := x.drain) rfl (fun _ => hlive) rfl rfl id
  | some work' =>
    have hsub : work.handled ++ work.deferred ++ name :: names ⊆
        work'.handled ++ work'.deferred ++ names := by
      rcases readFile_cases hwork with ⟨h₁, h₂⟩ | ⟨h₁, h₂⟩ <;> rw [h₁, h₂] <;> intro n hn <;>
        simp only [List.mem_append, List.mem_cons, List.not_mem_nil] at hn ⊢ <;> tauto
    refine hread.turn (d := x.drain) rfl (fun _ => hlive) (fun n hn hearly => ?_) ?_ id
    · rw [WorkerStage.handled, if_pos rfl] at hn
      have hcases : n ∈ work.handled ∨ n = name := by
        rcases readFile_cases hwork with ⟨h₁, -⟩ | ⟨h₁, -⟩
        · exact Or.inl (h₁ ▸ hn)
        · exact (List.mem_append.mp (h₁ ▸ hn)).imp_right List.mem_singleton.mp
      rcases hcases with hold | rfl
      · exact hread.sound n (hhandled ▸ hold) hearly
      · exact read_sound h hcontent hearly
    · rw [hdue, WorkerStage.due, if_pos rfl]
      exact Narrows.of_subset hsub

/-- The worker takes one step of `process_survey`. -/
theorem survey_inv (h : Inv job x) (rt : Runtime) (parseFile : Parser) (tick : Tick) {id : String}
    {remaining : List String} {stage : Stage} (hworker : x.worker = .survey id remaining stage)
    (hloaded : ∀ m node, stage ≠ .loaded m node)
    (htimely : timely job x (.worker tick parseFile) = true) :
    Inv job
      { x with
        drain := (Survey.step rt parseFile id tick x.drain stage).1
        worker := .survey id remaining (Survey.step rt parseFile id tick x.drain stage).2
        upload :=
          if id = job.id then
            x.upload.relocate (place stage (Survey.step rt parseFile id tick x.drain stage).2)
          else x.upload } := by
  have heffect := step_effect rt parseFile id tick x.drain stage
  simp only [timely, hworker] at htimely
  by_cases hown : id = job.id
  · subst hown
    rw [if_pos rfl]
    by_cases hclean : ∃ accepted files, stage = .cleaning accepted files
    · obtain ⟨accepted, files, rfl⟩ := hclean
      obtain ⟨hover, hall⟩ : x.upload.isOver = true ∧ ∀ f ∈ x.upload.done, f.1 ∈ x.listed := by
        simpa using htimely
      exact clean_inv h hworker hover hall _
    · refine own_inv h hworker heffect hloaded (fun accepted files heq => hclean ⟨_, _, heq⟩) ?_
      rintro m w accepted dups name rest rfl
      simpa using htimely
  · rw [if_neg hown]
    exact other_inv h hworker heffect (Ne.symm hown)

theorem worker_inv (h : Inv job x) (rt : Runtime) (parseFile : Parser) (tick : Tick)
    (htimely : timely job x (.worker tick parseFile) = true) :
    Inv job (x.workerStep job rt parseFile tick) := by
  obtain ⟨drain, worker, upload, offered, listed, early⟩ := x
  cases worker with
  | idle =>
    refine h.free rfl (fun hmem => h.live (Or.inl ?_)) rfl rfl id
    have hkeys : job.id ∈ drain.site.surveys.inbox.keys := (List.mem_insertionSort _).mp hmem
    exact AList.lookup_isSome.mpr hkeys
  | draining ids =>
    cases ids with
    | nil => exact h.free (d := drain) rfl (fun hmem => absurd hmem List.not_mem_nil) rfl rfl id
    | cons id remaining =>
      exact h.free (d := drain) rfl (fun hmem => h.live (Or.inr hmem)) rfl rfl not_false
  | reading id remaining m node names work =>
    cases names with
    | nil =>
      refine h.turn (d := drain) rfl (fun hmem => h.live (Or.inr hmem))
        (fun name hname hearly => h.sound name hname hearly) ?_ not_false
      rw [WorkerStage.due, WorkerStage.due, List.append_nil]
      exact Narrows.refl _
    | cons name names =>
      simp only [workerStep]
      cases hcontent : drain.inboxFile id name with
      | none => exact h.free (d := drain) rfl (fun hmem => h.live (Or.inr hmem)) rfl rfl not_false
      | some content =>
        by_cases hown : id = job.id
        · subst hown
          simp only [if_true]
          exact reading_inv h parseFile rfl hcontent
        · simp only [if_neg hown]
          cases readFile parseFile node name content work with
          | none =>
            exact h.free (d := drain) rfl (fun hmem => h.live (Or.inr hmem)) rfl rfl not_false
          | some work' =>
            exact h.free (d := drain) rfl (fun hmem => h.live (Or.inr hmem)) (if_neg hown) (if_neg hown)
              not_false
  | survey id remaining stage =>
    have hstep := survey_inv h rt parseFile tick rfl
    cases stage with
    | finished outcome =>
      exact h.free (d := drain) rfl (fun hmem => h.live (Or.inr (List.mem_cons_of_mem _ hmem))) rfl rfl
        not_false
    | loaded m node =>
      simp only [workerStep]
      cases hfolder : drain.site.surveys.inbox.lookup id with
      | none => exact h.free (d := drain) rfl (fun hmem => h.live (Or.inr hmem)) rfl rfl not_false
      | some folder =>
        by_cases hown : id = job.id
        · subst hown
          simp only [if_true]
          exact list_inv h rfl hfolder
        · simp only [if_neg hown]
          exact h.free (d := drain) rfl (fun hmem => h.live (Or.inr hmem)) (if_neg hown) (if_neg hown)
            not_false
    | _ => exact hstep (fun _ _ heq => by cases heq) htimely

theorem step_inv (h : Inv job x) (rt : Runtime) (e : IntakeEvent) (htimely : timely job x e = true) :
    Inv job (x.step job rt e) := by
  cases e with
  | upload => exact upload_inv h
  | failure =>
    simp only [step]
    split
    · exact h
    · exact failure_inv h
  | worker tick parseFile => exact worker_inv h rt parseFile tick htimely

theorem start_inv {site : Site} (hinbox : site.surveys.inbox.lookup job.id = none)
    (harchive : site.surveys.archive.lookup job.id = none) : Inv job (start site) where
  progress := trivial
  filed := ⟨nofun, nofun, fun name _ content hcontent => by
    simp [start, Drain.archiveFile, harchive] at hcontent⟩
  listing := ⟨nofun, nofun, nofun⟩
  ready := trivial
  live hin := by
    rw [start, hinbox] at hin
    rcases hin with hin | hin <;> cases hin
  sound := nofun
  kept := not_false

end Intake

end GridWitness.Survey
