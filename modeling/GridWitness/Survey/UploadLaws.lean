import GridWitness.Server.OutcomeLaws
import GridWitness.Survey.IntakeLaws

namespace GridWitness.Survey

open Library Server

section Names

variable (rt : Runtime)

/-- The position of a file can be read off the name it is stored under. -/
theorem safeName_position (raw : Option String) {i : Nat} (h : i < maxFiles) :
    Runtime.digits ((safeName rt raw i).toList.take 3) = some i := by
  have hlength : ∀ i < maxFiles, (zeroPad 3 i).toList.length = 3 := by decide +kernel
  have hdigits : ∀ i < maxFiles, Runtime.digits (zeroPad 3 i).toList = some i := by decide +kernel
  have htake : (safeName rt raw i).toList.take 3 = (zeroPad 3 i).toList := by
    simp only [safeName, String.toList_append, List.append_assoc]
    exact List.take_left' (hlength i h)
  rw [htake, hdigits i h]

theorem safeName_plain (raw : Option String) {i : Nat} (h : i < maxFiles) :
    safeName rt raw i ≠ "manifest.json" ∧ ∀ now, safeName rt raw i ≠ extractedName now := by
  have hposition := safeName_position rt raw h
  have hmanifest : Runtime.digits ("manifest.json".toList.take 3) = none := by decide
  have hextracted : Runtime.digits ['e', 'x', 't'] = none := by decide
  refine ⟨fun heq => ?_, fun now heq => ?_⟩
  · rw [heq, hmanifest] at hposition
    cases hposition
  · have htake : (extractedName now).toList.take 3 = ['e', 'x', 't'] := by
      simp [extractedName, String.toList_append]
    rw [heq, htake, hextracted] at hposition
    cases hposition

/-- The accepted files under their stored names, read in chunks. -/
def storedFiles (chunk : Bytes → List Bytes) : Nat → List UploadFile → List (String × List Bytes)
  | _, [] => []
  | i, f :: files => (safeName rt f.filename i, chunk f.content) :: storedFiles chunk (i + 1) files

theorem storedFiles_name (chunk : Bytes → List Bytes) (i : Nat) (files : List UploadFile) :
    ∀ name ∈ (storedFiles rt chunk i files).map (·.1),
      ∃ raw, ∃ j, i ≤ j ∧ j < i + files.length ∧ name = safeName rt raw j := by
  induction files generalizing i with
  | nil => exact nofun
  | cons f files ih =>
    intro name hname
    rcases List.mem_cons.mp hname with rfl | hname
    · exact ⟨f.filename, i, le_rfl, by simp, rfl⟩
    · obtain ⟨raw, j, hj, hlt, rfl⟩ := ih (i + 1) name hname
      refine ⟨raw, j, by omega, ?_, rfl⟩
      simp only [List.length_cons]
      omega

theorem storedFiles_nodup (chunk : Bytes → List Bytes) (i : Nat) (files : List UploadFile)
    (h : i + files.length ≤ maxFiles) : ((storedFiles rt chunk i files).map (·.1)).Nodup := by
  induction files generalizing i with
  | nil => exact List.nodup_nil
  | cons f files ih =>
    simp only [List.length_cons] at h
    refine List.nodup_cons.mpr ⟨fun hmem => ?_, ih (i + 1) (by omega)⟩
    obtain ⟨raw, j, hj, hlt, heq⟩ := storedFiles_name rt chunk (i + 1) files _ hmem
    have hi := safeName_position rt f.filename (i := i) (by omega)
    have hj' := safeName_position rt raw (i := j) (by omega)
    have hsame : safeName rt f.filename i = safeName rt raw j := heq
    rw [hsame, hj'] at hi
    cases hi
    omega

/-- The call of `survey_upload` for a form whose files were accepted. -/
def Job.ofForm (chunk : Bytes → List Bytes) (form : SurveyForm) (tier : LocTier) (draw : Draw)
    (uploadedUtc : String) (files : List UploadFile) (h : files.length ≤ maxFiles) : Job where
  node := surveyNode rt form tier (resolveLocation rt tier form.postcode form.region none none) draw
  now := draw.now
  files := storedFiles rt chunk 0 files
  manifest := surveyManifest rt form tier
    (resolveLocation rt tier form.postcode form.region none none).locRef draw.nodeId uploadedUtc
    (stash rt 0 files ∅).2
  nodup := storedFiles_nodup rt chunk 0 files (by omega)
  plain name hname := by
    obtain ⟨raw, j, -, hlt, rfl⟩ := storedFiles_name rt chunk 0 files name hname
    exact safeName_plain rt raw (by omega)

end Names

/-- The folder once files are written into it. -/
def writtenFolder (folder : Folder) (files : List (String × List Bytes)) : Folder :=
  files.foldl (fun folder f => folder.replaceRow f.1 (.raw f.2.flatten)) folder

theorem stash_folder (rt : Runtime) {chunk : Bytes → List Bytes}
    (hchunk : ∀ content, (chunk content).flatten = content) (i : Nat) (files : List UploadFile)
    (folder : Folder) :
    (stash rt i files folder).1 = writtenFolder folder (storedFiles rt chunk i files) := by
  induction files generalizing i folder with
  | nil => rfl
  | cons f files ih =>
    simp only [stash, storedFiles, writtenFolder, List.foldl_cons, hchunk]
    exact ih (i + 1) _

/-- The volume with the inbox folder of a survey put in place. -/
def Drain.withFolder (d : Drain) (id : String) (folder : Folder) : Drain :=
  d.withInbox (d.site.surveys.inbox.replaceRow id folder)

theorem Drain.withFolder_writeInbox (d : Drain) (id : String) (folder : Folder) (name : String)
    (content : Content) :
    (d.withFolder id folder).writeInbox id name content =
      some (d.withFolder id (folder.replaceRow name content)) := by
  simp only [writeInbox, withFolder, withInbox, Table.lookup_replaceRow, if_true, Option.map_some,
    Table.replaceRow_replaceRow]

namespace Intake

/-- The upload takes steps while the worker takes none. -/
abbrev UploadRun (job : Job) : Intake → Intake → Prop :=
  Relation.ReflTransGen fun x y => y = x.uploadStep job

variable (job : Job) (x : Intake) (d : Drain)

theorem writing_run (done : List (String × Bytes)) (name : String) (written : Bytes)
    (left : List Bytes) (todo : List (String × List Bytes)) (folder : Folder) :
    UploadRun job
      { x with
        drain := d.withFolder job.id (folder.replaceRow name (.raw written))
        upload := .writing done name written left todo .inbox }
      { x with
        drain := d.withFolder job.id (folder.replaceRow name (.raw (written ++ left.flatten)))
        upload := .next (done ++ [(name, written ++ left.flatten)]) todo } := by
  induction left generalizing written with
  | nil =>
    rw [List.flatten_nil, List.append_nil]
    exact .single rfl
  | cons chunk left ih =>
    rw [List.flatten_cons, ← List.append_assoc]
    refine .head ?_ (ih (written ++ chunk))
    simp only [uploadStep, Drain.rewrite, Drain.withFolder_writeInbox, Option.getD_some,
      Table.replaceRow_replaceRow]

theorem files_run (done : List (String × Bytes)) (todo : List (String × List Bytes))
    (folder : Folder) :
    UploadRun job
      { x with drain := d.withFolder job.id folder, upload := .next done todo }
      { x with
        drain := d.withFolder job.id (writtenFolder folder todo)
        upload := .next (done ++ todo.map fun f => (f.1, f.2.flatten)) [] } := by
  induction todo generalizing done folder with
  | nil =>
    rw [List.map_nil, List.append_nil]
    exact .refl
  | cons file todo ih =>
    obtain ⟨name, chunks⟩ := file
    have hwriting := writing_run job x d done name [] chunks todo folder
    have hrest := ih (done ++ [(name, chunks.flatten)]) (folder.replaceRow name (.raw chunks.flatten))
    rw [List.append_assoc] at hrest
    refine .head ?_ (hwriting.trans hrest)
    simp only [uploadStep, Drain.withFolder_writeInbox]

/-- What the volume holds once the files and the manifest of a job are stored. -/
def storedSite (site : Site) (db : Database) : Site :=
  let inbox := site.surveys.inbox
  let folder := writtenFolder ((inbox.lookup job.id).getD ∅) job.files
  { site with
    db
    surveys :=
      { site.surveys with
        inbox :=
          inbox.replaceRow job.id (folder.replaceRow "manifest.json" (.manifest job.manifest)) } }

theorem upload_run {site : Site} {db : Database}
    (hcreated : site.db.createNode job.now job.node = (db, true)) :
    UploadRun job (start site)
      { start (storedSite job site db) with upload := .finished job.whole } := by
  let d : Drain := { site := { site with db } }
  let folder := (site.surveys.inbox.lookup job.id).getD ∅
  have hprovision : (start site).uploadStep job = { start { site with db } with upload := .makeInbox } := by
    simp only [uploadStep, start, hcreated, if_true]
  have hfiles := files_run job (start site) d [] job.files folder
  rw [List.nil_append] at hfiles
  refine .head hprovision.symm (.head rfl (hfiles.trans (.single ?_)))
  simp only [uploadStep, Drain.withFolder_writeInbox]
  rfl

/-- The upload that is let run stores what a call of `survey_upload` in one piece stores. -/
theorem upload_alone (rt : Runtime) {chunk : Bytes → List Bytes}
    (hchunk : ∀ content, (chunk content).flatten = content) (s : App) (key : Option String)
    (form : SurveyForm) (draw : Draw) (uploadedUtc : String) {r : SurveyUploadResponse}
    (hstored : (surveyUpload rt s key form draw uploadedUtc).2 = .ok r) :
    ∃ job : Job, job.id = draw.nodeId ∧
      UploadRun job (start s.toSite)
        { start (surveyUpload rt s key form draw uploadedUtc).1.toSite with
          upload := .finished job.whole } := by
  have huploaded := surveyUpload_uploaded rt s key form draw uploadedUtc
  generalize surveyUpload rt s key form draw uploadedUtc = after at huploaded hstored ⊢
  cases huploaded with
  | refuse e => cases hstored
  | collide n refused => cases hstored
  | store tier loc n files folder response credential tiered checked resolved node few created stashed =>
    subst resolved node stashed
    let job := Job.ofForm rt chunk form tier draw uploadedUtc files few
    have hnode : s.db.createNode job.now job.node = ((s.db.createNode job.now job.node).1, true) :=
      Prod.ext rfl created
    have hrun := upload_run job hnode
    generalize hsite : storedSite job s.toSite (s.db.createNode job.now job.node).1 = site at hrun
    simp only [storedSite, job, Job.ofForm, Job.id, ← stash_folder rt hchunk,
      ← stash_stored rt 0 files ((s.surveys.inbox.lookup draw.nodeId).getD ∅)] at hsite
    subst hsite
    exact ⟨job, rfl, hrun⟩

end Intake

end GridWitness.Survey
