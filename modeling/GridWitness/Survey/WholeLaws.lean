import GridWitness.Survey.UploadLaws

namespace GridWitness.Survey.Intake

open Library Server

/-- Whatever the interleaving, and wherever the upload fails: where the worker moves only files that
were closed when it read them, and removes the folder only once the upload is over and all it wrote
was listed, the survey is processed whole. -/
theorem survey_whole (rt : Runtime) (job : Job) (site : Site) (events : List IntakeEvent)
    (hinbox : site.surveys.inbox.lookup job.id = none)
    (harchive : site.surveys.archive.lookup job.id = none)
    (hontime : Trace.Along (fun x e => x.step job rt e) (fun x e => timely job x e) (start site) events) :
    Whole job (events.foldl (fun x e => x.step job rt e) (start site)) := by
  have keep : ∀ x e, Inv job x → timely job x e → Inv job (x.step job rt e) :=
    fun x e h htimely => step_inv h rt e htimely
  exact whole_of_inv (hontime.invariant keep (start_inv hinbox harchive))

/-- A log of one row, with its header. -/
def logBytes : Bytes :=
  "Timestamp,Vrms,Frequency\n2026-01-01T00:00:00Z,240.1,50.01\n".toList.map fun c => c.toNat.toUInt8

/-- What the parser makes of the log, and of a file without a row. -/
def logParser : Parser := fun _ content =>
  match content with
  | .raw bytes =>
    some <|
      if bytes = logBytes then
        ⟨[⟨"2026-01-01T00:00:00.000Z", "1p", some (.fin (2401 / 10)), some (.fin (5001 / 100))⟩], 1, 1, 0,
          none, false⟩
      else ⟨[], 0, 0, 0, some "empty file", false⟩
  | _ => none

/-- The upload of the log, which is read in one chunk. -/
def logJob : Job :=
  Job.ofForm .ascii (fun content => [content])
    { contributorRef := "alice", label := "site", region := some "LONDON", files := [] }
    .region ⟨"n1", "secret", "2026-07-10T08:00:00Z"⟩ "2026-07-10T08:00:00Z"
    [⟨some "log.csv", logBytes⟩] (by decide)

/-- So many steps of the upload, and then a drain. -/
def uploadThenDrain (n : Nat) : List IntakeEvent :=
  List.replicate n .upload ++ List.replicate 13 (.worker ⟨"2026-07-10T09:30:00Z", none⟩ logParser)

theorem survey_whole_logJob :
    Whole logJob ((uploadThenDrain 6).foldl (fun x e => x.step logJob .ascii e) (start {})) := by
  have hontime : Trace.Along (fun x e => x.step logJob .ascii e) (fun x e => timely logJob x e)
      (start {}) (uploadThenDrain 6) := by decide +kernel
  exact survey_whole .ascii logJob {} (uploadThenDrain 6) rfl rfl hontime

/-- A drain after the file was opened and before its bytes are written archives it empty, and removes
the folder under the upload. -/
theorem partial_file_archived :
    ¬ ∀ (rt : Runtime) (job : Job) (site : Site) (events : List IntakeEvent),
      site.surveys.inbox.lookup job.id = none → site.surveys.archive.lookup job.id = none →
      Whole job (events.foldl (fun x e => x.step job rt e) (start site)) := by
  intro h
  let x := (uploadThenDrain 3).foldl (fun x e => x.step logJob .ascii e) (start {})
  have hwhole : Whole logJob x := h .ascii logJob {} (uploadThenDrain 3) rfl rfl
  have hdone : x.upload.done = [] := by decide +kernel
  have harchived : (x.drain.archiveFile logJob.id "000_log.csv").isSome = true := by decide +kernel
  have hname : "000_log.csv" ∈ logJob.files.map (·.1) := by decide +kernel
  obtain ⟨content, hcontent⟩ := Option.isSome_iff_exists.mp harchived
  obtain ⟨f, hf, -⟩ := hwhole.archived "000_log.csv" hname content hcontent
  rw [hdone] at hf
  cases hf

end GridWitness.Survey.Intake
