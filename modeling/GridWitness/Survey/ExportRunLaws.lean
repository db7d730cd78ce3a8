import GridWitness.Server.OwnershipLaws
import GridWitness.Survey.ExportLaws

namespace GridWitness.Survey

open Library Server

section Files

variable {id name : String} {content : Content} {owner : Node} {d : Drain}

/-- Where the request still finds a file of a node in one of its folders, among the names left to it. -/
def Found (id name : String) (d : Drain) (names : List String) : Area → Prop
  | .archive => (d.inboxFile id name).isSome ∨ name ∈ names
  | .inbox => (d.inboxFile id name).isSome ∧ name ∈ names

/-- A file of the account is in the zip, or the request comes to its node, or finds it there. -/
def Held (id name : String) (content : Content) (files : List (String × Content)) (d : Drain) :
    ExportStage → Prop
  | .pending => True
  | .next todo => id ∈ todo.map (·.nodeId) ∨ (id ++ "/" ++ name, content) ∈ files
  | .copying area node names _ todo =>
    id ∈ todo.map (·.nodeId) ∨ (id ++ "/" ++ name, content) ∈ files ∨
      node.nodeId = id ∧ Found id name d names area
  | .writing area node current names _ todo =>
    id ∈ todo.map (·.nodeId) ∨ (id ++ "/" ++ name, content) ∈ files ∨
      node.nodeId = id ∧ Found id name d (current :: names) area
  | .finished bundle => (id ++ "/" ++ name, content) ∈ bundle.files
  | .failed => True

/-- A scan of the archive finds what the inbox does not have. -/
theorem found_archive (hkept : Kept id owner name content d) :
    Found id name d (Area.archive.scan d id) .archive := by
  rcases hkept.here with hin | ⟨-, hout⟩
  · exact .inl (by rw [hin, Option.isSome_some])
  · exact .inr (Area.mem_scan.mpr (by rw [Area.file_archive, hout, Option.isSome_some]))

theorem Found.skip (hkept : Kept id owner name content d) {current : String} {names : List String}
    {area : Area} (h : Found id name d (current :: names) area)
    (hnone : (area.file d id current) = none) : Found id name d names area := by
  cases area with
  | archive =>
    rcases h with hin | hmem
    · exact .inl hin
    · rcases List.mem_cons.mp hmem with rfl | hmem
      · rcases hkept.here with hin | ⟨-, hout⟩
        · exact .inl (by rw [hin, Option.isSome_some])
        · exact absurd (hnone.symm.trans hout) (by simp)
      · exact .inr hmem
  | inbox =>
    obtain ⟨hin, hmem⟩ := h
    rcases List.mem_cons.mp hmem with rfl | hmem
    · rw [show d.inboxFile id name = none from hnone] at hin
      cases hin
    · exact ⟨hin, hmem⟩

/-- The copy of a file has the content that was uploaded. -/
theorem Found.copy (hkept : Kept id owner name content d) {current : String} {names : List String}
    {area : Area} (h : Found id name d (current :: names) area) {copied : Content}
    (hfile : area.file d id current = some copied) :
    (id ++ "/" ++ current, copied) = (id ++ "/" ++ name, content) ∨ Found id name d names area := by
  cases area with
  | archive =>
    rcases h with hin | hmem
    · exact .inr (.inl hin)
    · rcases List.mem_cons.mp hmem with rfl | hmem
      · rcases hkept.here with hin | ⟨-, hout⟩
        · exact .inr (.inl (by rw [hin, Option.isSome_some]))
        · exact .inl (by rw [Option.some.inj (hfile.symm.trans hout)])
      · exact .inr (.inr hmem)
  | inbox =>
    obtain ⟨hin, hmem⟩ := h
    rcases List.mem_cons.mp hmem with rfl | hmem
    · rcases hkept.here with hcontent | ⟨hnone, -⟩
      · exact .inl (by rw [Option.some.inj (hfile.symm.trans hcontent)])
      · rw [hnone] at hin
        cases hin
    · exact .inr ⟨hin, hmem⟩

theorem step_held (hkept : Kept id owner name content d) {x : Export}
    (hmine : id ∈ (d.site.db.getNodesByContributor x.contributorRef).map (·.nodeId)) (now : String)
    (hx : Held id name content x.files d x.stage) :
    Held id name content (x.step d now).files d (x.step d now).stage := by
  obtain ⟨ref, files, surveys, stage⟩ := x
  cases stage with
  | pending => exact .inl hmine
  | next todo =>
    cases todo with
    | nil => exact hx.resolve_left List.not_mem_nil
    | cons node todo =>
      rcases hx with hmem | hgot
      · rcases List.mem_cons.mp hmem with rfl | hmem
        · exact .inr (.inr ⟨rfl, found_archive hkept⟩)
        · exact .inl hmem
      · exact .inr (.inl hgot)
  | copying area node names fileCount todo =>
    cases names with
    | cons current names =>
      simp only [Export.step]
      split
      · exact hx
      · next hnone =>
        refine hx.imp_right fun hx => hx.imp_right fun h => ⟨h.1, h.2.skip hkept ?_⟩
        rw [← h.1]
        simpa using hnone
    | nil =>
      cases area with
      | archive =>
        refine hx.imp_right fun hx => hx.imp_right fun h => ⟨h.1, ?_⟩
        have hin := h.2.resolve_right List.not_mem_nil
        exact ⟨hin, Area.mem_scan.mpr (h.1 ▸ hin)⟩
      | inbox => exact hx.imp_right fun hx => hx.resolve_right fun h => List.not_mem_nil h.2.2
  | writing area node current names fileCount todo =>
    simp only [Export.step]
    split
    · trivial
    · next copied hfile =>
      rcases hx with hmem | hgot | ⟨hid, hfound⟩
      · exact .inl hmem
      · exact .inr (.inl (List.mem_append_left _ hgot))
      · subst hid
        rcases hfound.copy hkept hfile with heq | hfound
        · exact .inr (.inl (List.mem_append_right _ (List.mem_singleton.mpr heq.symm)))
        · exact .inr (.inr ⟨rfl, hfound⟩)
  | finished bundle => exact hx
  | failed => trivial

end Files

namespace Exporting

section Files

variable {rt : Runtime} {x : Exporting} {id name : String} {content : Content} {owner : Node}

/-- A file the request counts on stays in the inbox. -/
theorem awaited_stays (rt : Runtime) (hsafe : x.drains.Safe id owner name content) (hplain : name ≠ "manifest.json")
    {e : DrainEvent} (hcareful : x.careful (.worker e)) (hawaits : x.request.stage.awaits id name)
    (hfile : (x.drains.drain.inboxFile id name).isSome) :
    ((x.drains.step rt e).drain.inboxFile id name).isSome := by
  rcases x.drains.step_file rt e id name with ⟨hin, -⟩ | ⟨tick, remaining, stage, rfl, hsurvey, hchange⟩
  · exact hin ▸ hfile
  · have hturn := hsafe.turn
    rw [hsurvey] at hturn
    have howed := hturn.2.2.1 rfl
    cases hchange with
    | same hin => exact hin ▸ hfile
    | archived _ hin => exact hin ▸ hfile
    | requeued hname => exact absurd hname hplain
    | moved hmoving =>
      obtain ⟨m, w, accepted, dups, left, rfl⟩ := hmoving
      simp [careful, hsurvey, hawaits] at hcareful
    | cleaned hcleaning =>
      obtain ⟨accepted, files, rfl⟩ := hcleaning
      rw [show x.drains.drain.inboxFile id name = none from howed] at hfile
      cases hfile
    | purged hpurging => rcases hpurging with rfl | rfl <;> exact howed.elim

theorem Found.stays {names : List String} {area : Area} {d d' : Drain} (h : Found id name d names area)
    (hin : (area = .inbox → name ∈ names) → (d.inboxFile id name).isSome →
      (d'.inboxFile id name).isSome) : Found id name d' names area := by
  cases area with
  | archive => exact h.imp_left (hin fun h => by cases h)
  | inbox => exact ⟨hin (fun _ => h.2) h.1, h.2⟩

theorem worker_held (hsafe : x.drains.Safe id owner name content) (hplain : name ≠ "manifest.json")
    {e : DrainEvent} (hcareful : x.careful (.worker e))
    (hx : Held id name content x.request.files x.drains.drain x.request.stage) :
    Held id name content x.request.files (x.drains.step rt e).drain x.request.stage := by
  have hstays := awaited_stays rt hsafe hplain hcareful
  cases hstage : x.request.stage with
  | pending => trivial
  | next todo => rwa [hstage] at hx
  | copying area node names fileCount todo =>
    rw [hstage] at hx hstays
    refine hx.imp_right fun hx => hx.imp_right fun h => ⟨h.1, ?_⟩
    refine Found.stays h.2 fun hmem => hstays ?_
    cases area with
    | archive => simpa [ExportStage.awaits] using h.1
    | inbox => simpa [ExportStage.awaits, h.1] using hmem rfl
  | writing area node current names fileCount todo =>
    rw [hstage] at hx hstays
    refine hx.imp_right fun hx => hx.imp_right fun h => ⟨h.1, ?_⟩
    refine Found.stays h.2 fun hmem => hstays ?_
    cases area with
    | archive => simpa [ExportStage.awaits] using h.1
    | inbox => simpa [ExportStage.awaits, h.1] using hmem rfl
  | finished bundle => rwa [hstage] at hx
  | failed => trivial

end Files

end Exporting

section Alone

variable (d : Drain) (now : String)

/-- The steps of a request alone lead from one state of it to another. -/
def Reaches (x y : Export) : Prop := ∃ n, (Export.step d now)^[n] x = y

variable {d now}

theorem Reaches.trans {x y z : Export} (h : Reaches d now x y) (h' : Reaches d now y z) :
    Reaches d now x z := by
  obtain ⟨n, rfl⟩ := h
  obtain ⟨m, rfl⟩ := h'
  exact ⟨m + n, Function.iterate_add_apply _ m n x⟩

theorem Reaches.step (x : Export) : Reaches d now x (x.step d now) := ⟨1, rfl⟩

/-- The entries of the zip for some files of a node. -/
def Area.entries (area : Area) (d : Drain) (id : String) (names : List String) :
    List (String × Content) :=
  names.filterMap fun name => (area.file d id name).map (id ++ "/" ++ name, ·)

theorem copying_reaches (ref : String) (files : List (String × Content)) (surveys : List SurveySummary)
    (area : Area) (node : Node) (names : List String) (fileCount : Nat) (todo : List Node) :
    Reaches d now ⟨ref, files, surveys, .copying area node names fileCount todo⟩
      ⟨ref, files ++ area.entries d node.nodeId names, surveys,
        .copying area node [] (fileCount + (area.entries d node.nodeId names).length) todo⟩ := by
  induction names generalizing files fileCount with
  | nil => exact ⟨0, by simp [Area.entries]⟩
  | cons name names ih =>
    refine (Reaches.step _).trans ?_
    cases hfile : area.file d node.nodeId name with
    | none =>
      have hentries : area.entries d node.nodeId (name :: names) = area.entries d node.nodeId names := by
        simp [Area.entries, hfile]
      simp only [Export.step, hfile, Option.isSome_none, Bool.false_eq_true, if_false, hentries]
      exact ih files fileCount
    | some content =>
      have hentries : area.entries d node.nodeId (name :: names) =
          (node.nodeId ++ "/" ++ name, content) :: area.entries d node.nodeId names := by
        simp [Area.entries, hfile]
      simp only [Export.step, hfile, Option.isSome_some, if_true, hentries]
      refine (Reaches.step _).trans ?_
      simp only [Export.step, hfile]
      have hrest := ih (files ++ [(node.nodeId ++ "/" ++ name, content)]) (fileCount + 1)
      rw [List.append_assoc, List.singleton_append, Nat.add_assoc, Nat.add_comm 1] at hrest
      exact hrest

theorem entries_scan (area : Area) (id : String) :
    area.entries d id (area.scan d id) = areaFiles (area.folders d.site.surveys) id := by
  simp only [Area.entries, Area.scan, areaFiles, Area.file]
  cases (area.folders d.site.surveys).lookup id with
  | none => rfl
  | some folder => rfl

theorem todo_reaches (ref : String) (files : List (String × Content)) (surveys : List SurveySummary)
    (todo : List Node) :
    Reaches d now ⟨ref, files, surveys, .next todo⟩
      ⟨ref, files ++ todo.flatMap fun node => surveyFiles d.site.surveys node.nodeId,
        surveys ++ todo.map (.ofNode d.site.surveys), .next []⟩ := by
  induction todo generalizing files surveys with
  | nil => exact ⟨0, by simp⟩
  | cons node todo ih =>
    -- both folders of the node, and its summary
    refine (Reaches.step _).trans ((copying_reaches ref files surveys .archive node _ 0 todo).trans ?_)
    refine (Reaches.step _).trans ((copying_reaches ref _ surveys .inbox node _ _ todo).trans ?_)
    refine (Reaches.step _).trans ?_
    simp only [Export.step, entries_scan]
    have hsummary : surveySummary node (0 + (areaFiles (Area.archive.folders d.site.surveys)
        node.nodeId).length + (areaFiles (Area.inbox.folders d.site.surveys) node.nodeId).length) =
          .ofNode d.site.surveys node := by
      simp [surveySummary, SurveySummary.ofNode, surveyFiles, Area.folders]
    rw [hsummary]
    have hrest := ih (files ++ surveyFiles d.site.surveys node.nodeId)
      (surveys ++ [.ofNode d.site.surveys node])
    simpa [surveyFiles, Area.folders, List.append_assoc] using hrest

/-- The steps of a request alone are the route. -/
theorem export_alone {s : App} {xGwInternal : Option String} {contributorRef : String}
    {bundle : AccountExport} (h : accountExport s xGwInternal contributorRef now = .ok bundle) :
    ∃ y, Reaches { site := s.toSite } now (.start contributorRef) y ∧ y.answer = some bundle := by
  simp only [accountExport] at h
  split at h
  · cases h
  · cases h
    refine ⟨_, (Reaches.step _).trans ((todo_reaches contributorRef [] [] _).trans (Reaches.step _)), ?_⟩
    simp only [Export.step, Export.answer, Export.start, List.nil_append]

/-- An orderly request that is left alone answers. -/
theorem orderly_answers {nodes : List Node} {x : Export} (hx : Orderly nodes x.files d x.stage) :
    ∃ y bundle, Reaches d now x y ∧ y.answer = some bundle := by
  have hnext : ∀ ref files surveys todo, ∃ y bundle,
      Reaches d now ⟨ref, files, surveys, .next todo⟩ y ∧ y.answer = some bundle :=
    fun ref files surveys todo =>
      ⟨_, _, (todo_reaches ref files surveys todo).trans (Reaches.step _), rfl⟩
  have hcopying : ∀ ref files surveys area node names fileCount todo, ∃ y bundle,
      Reaches d now ⟨ref, files, surveys, .copying area node names fileCount todo⟩ y ∧
        y.answer = some bundle := by
    intro ref files surveys area node names fileCount todo
    have hinbox : ∀ files names fileCount, ∃ y bundle,
        Reaches d now ⟨ref, files, surveys, .copying .inbox node names fileCount todo⟩ y ∧
          y.answer = some bundle := by
      intro files names fileCount
      obtain ⟨y, bundle, hy, hanswer⟩ := hnext ref (files ++ Area.inbox.entries d node.nodeId names)
        (surveys ++ [surveySummary node
          (fileCount + (Area.inbox.entries d node.nodeId names).length)]) todo
      exact ⟨y, bundle, (copying_reaches ref files surveys .inbox node names fileCount todo).trans
        ((Reaches.step _).trans hy), hanswer⟩
    cases area with
    | inbox => exact hinbox files names fileCount
    | archive =>
      obtain ⟨y, bundle, hy, hanswer⟩ := hinbox (files ++ Area.archive.entries d node.nodeId names)
        (Area.inbox.scan d node.nodeId)
        (fileCount + (Area.archive.entries d node.nodeId names).length)
      exact ⟨y, bundle, (copying_reaches ref files surveys .archive node names fileCount todo).trans
        ((Reaches.step _).trans hy), hanswer⟩
  obtain ⟨ref, files, surveys, stage⟩ := x
  cases stage with
  | pending =>
    obtain ⟨y, bundle, hy, hanswer⟩ := hnext ref files surveys (d.site.db.getNodesByContributor ref)
    exact ⟨y, bundle, (Reaches.step _).trans hy, hanswer⟩
  | next todo => exact hnext ref files surveys todo
  | copying area node names fileCount todo => exact hcopying ref files surveys area node names fileCount todo
  | writing area node name names fileCount todo =>
    obtain ⟨content, hcontent⟩ := Option.isSome_iff_exists.mp hx.2
    obtain ⟨y, bundle, hy, hanswer⟩ := hcopying ref (files ++ [(node.nodeId ++ "/" ++ name, content)])
      surveys area node names (fileCount + 1) todo
    refine ⟨y, bundle, (Reaches.step _).trans ?_, hanswer⟩
    simpa only [Export.step, hcontent] using hy
  | finished bundle => exact ⟨_, bundle, ⟨0, rfl⟩, rfl⟩
  | failed => exact hx.elim

end Alone

/-- Every file a form stores has a name of its position. -/
theorem stash_names (rt : Runtime) (i : Nat) (files : List UploadFile) (folder : Folder) {n : String}
    (h : ((stash rt i files folder).1.lookup n).isSome) :
    (folder.lookup n).isSome ∨ ∃ raw j, j < i + files.length ∧ n = safeName rt raw j := by
  induction files generalizing i folder with
  | nil => exact .inl h
  | cons f files ih =>
    rcases ih (i + 1) _ h with hfolder | ⟨raw, j, hj, rfl⟩
    · rw [Table.lookup_replaceRow] at hfolder
      split at hfolder
      · next hname => exact .inr ⟨f.filename, i, by simp, hname⟩
      · exact .inl hfolder
    · exact .inr ⟨raw, j, by rw [List.length_cons]; omega, rfl⟩

/-- An upload under a new id leaves the folders tidy. -/
theorem surveyUpload_tidy (rt : Runtime) (s : App) (key : Option String) (form : SurveyForm)
    (draw : Draw) (uploadedUtc : String) (htidy : Tidy { site := s.toSite })
    (hinbox : s.surveys.inbox.lookup draw.nodeId = none)
    (harchive : s.surveys.archive.lookup draw.nodeId = none) :
    Tidy { site := (surveyUpload rt s key form draw uploadedUtc).1.toSite } := by
  have huploaded := surveyUpload_uploaded rt s key form draw uploadedUtc
  generalize surveyUpload rt s key form draw uploadedUtc = after at huploaded ⊢
  cases huploaded with
  | refuse e => exact htidy
  | collide n refused => exact ⟨htidy.plain, htidy.apart⟩
  | store tier loc n files folder response credential tiered checked resolved node few created stashed =>
    refine ⟨fun id n hin now => ?_, fun id n hname hin => ?_⟩
    · simp only [Drain.inboxFile, Table.lookup_replaceRow] at hin
      split at hin
      · rw [Option.bind_some, Table.lookup_replaceRow] at hin
        split at hin
        · next hname => exact hname ▸ ne_extractedName (by decide) now
        · rw [stashed, hinbox] at hin
          rcases stash_names rt 0 files _ hin with hempty | ⟨raw, j, hj, rfl⟩
          · cases hempty
          · exact (safeName_plain rt raw (by omega)).2 now
      · exact htidy.plain id n hin now
    · simp only [Drain.inboxFile, Table.lookup_replaceRow] at hin
      split at hin
      · next hid =>
        subst hid
        change (s.surveys.archive.lookup draw.nodeId).bind _ = none
        rw [harchive, Option.bind_none]
      · exact htidy.apart id n hname hin

theorem mem_getNodesByContributor_of {db : Database} {id ref : String} {node : Node}
    (hlive : db.getNode id = some node) (howner : db.getContributorRef id = some ref) :
    node ∈ db.getNodesByContributor ref := by
  refine (List.mem_insertionSort _).mpr (List.mem_filterMap.mpr ⟨id, ?_, by rw [if_pos howner, hlive]⟩)
  simp only [Database.getNode] at hlive
  split at hlive
  · next row hrow => exact AList.mem_keys.mp (AList.lookup_isSome.mp (by rw [hrow, Option.isSome_some]))
  · cases hlive

namespace Exporting

variable {rt : Runtime} {site : Site} {parseFile : Parser} {ref : String} {nodes : List Node}

/-- The state after some events. -/
def after (rt : Runtime) (x : Exporting) (events : List ExportEvent) : Exporting :=
  events.foldl (step rt) x

/-- An entry of the zip was, at some point of a run, a file of a node of the account. -/
def Copied (rt : Runtime) (start : Exporting) (nodes : List Node) (events : List ExportEvent)
    (entry : String × Content) : Prop :=
  ∃ node ∈ nodes, ∃ name area past, past <+: events ∧ entry.1 = node.nodeId ++ "/" ++ name ∧
    Area.file area (start.after rt past).drains.drain node.nodeId name = some entry.2

theorem after_sound (hslash : ∀ m ∈ nodes, '/' ∉ m.nodeId.toList) {x : Exporting} (hx : Sound nodes x)
    {events : List ExportEvent}
    (hcareful : Trace.Along (step rt) (fun x e => x.careful e) x events) :
    Sound nodes (x.after rt events) :=
  hcareful.invariant (fun _ e hx he => step_sound hslash hx rt e he) hx

/-- The entries of the zip all come from nodes of the account. -/
theorem after_copied (hslash : ∀ m ∈ nodes, '/' ∉ m.nodeId.toList) {x : Exporting} (hx : Sound nodes x)
    (hempty : x.request.files = []) (events : List ExportEvent)
    (hcareful : Trace.Along (step rt) (fun x e => x.careful e) x events) :
    ∀ entry ∈ (x.after rt events).request.files, Copied rt x nodes events entry := by
  induction events using List.reverseRecOn with
  | nil =>
    rw [after, List.foldl_nil, hempty]
    exact fun entry hentry => absurd hentry List.not_mem_nil
  | append_singleton events e ih =>
    have hpast := (Trace.Along.append.mp hcareful).1
    have hsound := after_sound hslash hx hpast
    have hearlier : ∀ entry ∈ (x.after rt events).request.files, Copied rt x nodes (events ++ [e]) entry := by
      intro entry hentry
      obtain ⟨node, hnode, name, area, past, hprefix, h⟩ := ih hpast entry hentry
      exact ⟨node, hnode, name, area, past, hprefix.trans (List.prefix_append _ _), h⟩
    have hstep : x.after rt (events ++ [e]) = (x.after rt events).step rt e := by
      rw [after, List.foldl_append, List.foldl_cons, List.foldl_nil, after]
    rw [hstep]
    cases e with
    | worker e => exact hearlier
    | request now =>
      generalize hy : x.after rt events = y at hsound hearlier
      obtain ⟨drains, ⟨ref, files, surveys, stage⟩⟩ := y
      simp only [step, Export.step]
      have horderly := hsound.orderly
      intro entry hentry
      cases stage with
      | writing area node name names fileCount todo =>
        obtain ⟨content, hcontent⟩ := Option.isSome_iff_exists.mp horderly.2
        simp only [hcontent] at hentry
        rcases List.mem_append.mp hentry with hentry | hentry
        · exact hearlier entry hentry
        · obtain rfl := List.mem_singleton.mp hentry
          refine ⟨node, horderly.1.mine, name, area, events, List.prefix_append _ _, rfl, ?_⟩
          rw [hy]
          exact hcontent
      | next todo => cases todo <;> exact hearlier entry hentry
      | copying area node names fileCount todo =>
        cases names with
        | cons name names =>
          simp only at hentry
          split at hentry <;> exact hearlier entry hentry
        | nil => cases area <;> exact hearlier entry hentry
      | _ => exact hearlier entry hentry

/-- A file of an upload is in the zip, or the request still finds it. -/
theorem after_held {job : Job} {owner : Node} (hqueued : Drains.Queued job owner site)
    (howner : site.db.getContributorRef job.id = some ref) {f : String × Bytes} (hf : f ∈ job.whole)
    (hx : Sound (site.db.getNodesByContributor ref) (start site parseFile ref))
    (hslash : ∀ m ∈ site.db.getNodesByContributor ref, '/' ∉ m.nodeId.toList) {events : List ExportEvent}
    (hcareful : Trace.Along (step rt) (fun x e => x.careful e) (start site parseFile ref) events) :
    let x := (start site parseFile ref).after rt events
    Held job.id f.1 (.raw f.2) x.request.files x.drains.drain x.request.stage := by
  obtain ⟨hplain, hextracted⟩ := job.plain f.1 (by
    obtain ⟨g, hg, rfl⟩ := List.mem_map.mp hf
    exact List.mem_map_of_mem hg)
  have hmine : job.id ∈ (site.db.getNodesByContributor ref).map (·.nodeId) := by
    have hmem := mem_getNodesByContributor_of hqueued.live howner
    rw [← Database.getNode_nodeId hqueued.live]
    exact List.mem_map_of_mem hmem
  have hsafe := Drains.start_safe parseFile hqueued.live (hqueued.inbox f hf) (hqueued.archive f hf)
  have hkeep : ∀ (x : Exporting) (e : ExportEvent),
      (Sound (site.db.getNodesByContributor ref) x ∧ x.drains.Safe job.id owner f.1 (.raw f.2) ∧
        Held job.id f.1 (.raw f.2) x.request.files x.drains.drain x.request.stage) → x.careful e →
      (Sound (site.db.getNodesByContributor ref) (x.step rt e) ∧
        (x.step rt e).drains.Safe job.id owner f.1 (.raw f.2) ∧
        Held job.id f.1 (.raw f.2) (x.step rt e).request.files (x.step rt e).drains.drain
          (x.step rt e).request.stage) := by
    rintro x e ⟨hsound, hsafe, hheld⟩ he
    refine ⟨step_sound hslash hsound rt e he, ?_⟩
    cases e with
    | request now => exact ⟨hsafe, step_held hsafe.kept (hsound.mine ▸ hmine) now hheld⟩
    | worker e =>
      exact ⟨Drains.step_safe hsafe rt hplain hextracted e, worker_held hsafe hplain he hheld⟩
  exact (hcareful.invariant hkeep ⟨hx, hsafe, trivial⟩).2.2

theorem entryNames_nodup {bundle : AccountExport} (hunique : (bundle.files.map (·.1)).Nodup)
    (hslash : ∀ entry ∈ bundle.files, '/' ∈ entry.1.toList) : (entryNames bundle).Nodup := by
  have hplain : ∀ name, '/' ∉ name.toList → name ∉ bundle.files.map (·.1) := by
    intro name hname hmem
    obtain ⟨entry, hentry, rfl⟩ := List.mem_map.mp hmem
    exact hname (hslash entry hentry)
  have hreadme := hplain "README.txt" (by decide)
  have hmanifest := hplain "manifest.json" (by decide)
  rw [entryNames, List.nodup_cons, List.mem_append, List.mem_singleton]
  refine ⟨fun h => h.elim hreadme (by decide), ?_⟩
  refine List.nodup_append.mpr ⟨hunique, List.nodup_singleton _, fun a ha b hb heq => ?_⟩
  rw [heq, List.mem_singleton.mp hb] at ha
  exact hmanifest ha

/-- An export answers with a zip that has every uploaded file of the account, no name twice and no file
of another account, in every run in which the worker takes no file from an inbox that the request
counts on, and the request scans no inbox with a manifest it has already. -/
theorem export_complete (rt : Runtime) (site : Site) (parseFile : Parser) (ref : String)
    (htidy : Tidy { site }) (hslash : ∀ m ∈ site.db.getNodesByContributor ref, '/' ∉ m.nodeId.toList)
    (events : List ExportEvent)
    (hcareful : Trace.Along (step rt) (fun x e => x.careful e) (start site parseFile ref) events) :
    let x := (start site parseFile ref).after rt events
    (∀ now, ∃ y bundle, Reaches x.drains.drain now x.request y ∧ y.answer = some bundle) ∧
    ∀ bundle, x.request.answer = some bundle →
      (∀ job owner, Drains.Queued job owner site → site.db.getContributorRef job.id = some ref →
        ∀ f ∈ job.whole, (job.id ++ "/" ++ f.1, .raw f.2) ∈ bundle.files) ∧
      (entryNames bundle).Nodup ∧
      ∀ entry ∈ bundle.files,
        Copied rt (start site parseFile ref) (site.db.getNodesByContributor ref) events entry := by
  intro x
  have hstart : Sound (site.db.getNodesByContributor ref) (start site parseFile ref) := by
    refine ⟨htidy, fun id remaining stage hstage => ?_, rfl, List.nodup_nil, rfl⟩
    cases hstage
  have hsound : Sound _ x := after_sound hslash hstart hcareful
  refine ⟨fun now => orderly_answers hsound.orderly, fun bundle hbundle => ?_⟩
  have hstage : x.request.stage = .finished bundle := by
    simp only [Export.answer] at hbundle
    split at hbundle
    · next hstage => rw [hstage, Option.some.inj hbundle]
    · cases hbundle
  have hfiles : bundle.files = x.request.files := by
    have horderly := hsound.orderly
    rw [hstage] at horderly
    exact horderly
  have hcopied := after_copied hslash hstart rfl events hcareful
  refine ⟨fun job owner hqueued howner f hf => ?_, entryNames_nodup ?_ ?_, ?_⟩
  · have hheld := after_held hqueued howner hf hstart hslash hcareful
    rw [show x = (start site parseFile ref).after rt events from rfl] at hstage
    simp only [hstage] at hheld
    exact hheld
  · rw [hfiles]
    exact hsound.unique
  · rw [hfiles]
    intro entry hentry
    obtain ⟨node, -, name, area, past, -, heq, -⟩ := hcopied entry hentry
    rw [heq]
    simp [String.toList_append]
  · rw [hfiles]
    exact hcopied

/-- The request is answered while the survey is at the end of its moves. -/
def exportRun : List ExportEvent :=
  .worker (.start Drains.logRow) :: List.replicate 8 (.worker (.effect ⟨"2026-07-10T09:30:00Z", none⟩)) ++
    List.replicate 11 (.request "2026-07-10T10:00:00Z") ++
    List.replicate 4 (.worker (.effect ⟨"2026-07-10T09:30:00Z", none⟩))

theorem logSite_tidy : Tidy { site := Drains.logSite } := by
  have hinbox : Drains.logSite.surveys.inbox.keys = ["n1"] := by decide +kernel
  have harchive : Drains.logSite.surveys.archive.keys = [] := by decide +kernel
  have hnames : Area.inbox.scan { site := Drains.logSite } "n1" = ["000_log.csv", "manifest.json"] := by
    decide +kernel
  refine ⟨fun id n hin now heq => ?_, fun id n _ _ => ?_⟩
  · have hid : id = "n1" := by
      by_contra hne
      have hnone : Drains.logSite.surveys.inbox.lookup id = none := by
        refine AList.lookup_eq_none.mpr fun hmem => ?_
        have hkey := AList.mem_keys.mp hmem
        rw [hinbox] at hkey
        exact hne (List.mem_singleton.mp hkey)
      simp [Drain.inboxFile, hnone] at hin
    rw [hid] at hin
    have hmem : n ∈ Area.inbox.scan { site := Drains.logSite } "n1" := Area.mem_scan.mpr hin
    have hplain : ∀ name ∈ ["000_log.csv", "manifest.json"], name.toList.take 1 ≠ ['e'] := by decide
    exact ne_extractedName (hplain n (hnames ▸ hmem)) now heq
  · have hnone : Drains.logSite.surveys.archive.lookup id = none := by
      refine AList.lookup_eq_none.mpr fun hmem => ?_
      have hkey := AList.mem_keys.mp hmem
      rw [harchive] at hkey
      exact absurd hkey List.not_mem_nil
    simp [Drain.archiveFile, hnone]

theorem export_complete_exportRun : ∃ bundle,
    ((start Drains.logSite Drains.logRow "alice").after .ascii exportRun).request.answer = some bundle ∧
    ("n1/000_log.csv", .raw Intake.logBytes) ∈ bundle.files ∧ (entryNames bundle).Nodup := by
  have hslash : ∀ m ∈ Drains.logSite.db.getNodesByContributor "alice", '/' ∉ m.nodeId.toList := by
    decide +kernel
  have hcareful : Trace.Along (step .ascii) (fun x e => x.careful e)
      (start Drains.logSite Drains.logRow "alice") exportRun := by decide +kernel
  obtain ⟨-, hanswer⟩ := export_complete .ascii Drains.logSite Drains.logRow "alice" logSite_tidy hslash
    exportRun hcareful
  obtain ⟨bundle, hbundle⟩ := Option.isSome_iff_exists.mp (show
    ((start Drains.logSite Drains.logRow "alice").after .ascii exportRun).request.answer.isSome by
      decide +kernel)
  obtain ⟨node, hqueued⟩ := Drains.logSite_queued
  obtain ⟨hcomplete, hnodup, -⟩ := hanswer bundle hbundle
  have howner : Drains.logSite.db.getContributorRef Intake.logJob.id = some "alice" := by decide +kernel
  have hwhole : Intake.logJob.whole = [("000_log.csv", Intake.logBytes)] := by decide +kernel
  have hid : Intake.logJob.id = "n1" := by decide +kernel
  have hfile := hcomplete Intake.logJob node hqueued howner
  rw [hwhole, hid] at hfile
  exact ⟨bundle, hbundle, hfile _ List.mem_cons_self, hnodup⟩

/-- The worker moves the file after the scan of the archive and before the scan of the inbox. -/
def missedRun : List ExportEvent :=
  .worker (.start Drains.logRow) :: List.replicate 2 (.request "2026-07-10T10:00:00Z") ++
    List.replicate 8 (.worker (.effect ⟨"2026-07-10T09:30:00Z", none⟩)) ++
    List.replicate 6 (.request "2026-07-10T10:00:00Z")

/-- A file that is moved between the two scans is in neither of them. -/
theorem moved_file_missed :
    ¬∀ (rt : Runtime) (site : Site) (parseFile : Parser) (ref : String) (events : List ExportEvent)
        (bundle : AccountExport) (job : Job) (owner : Node), Tidy { site } →
        (∀ m ∈ site.db.getNodesByContributor ref, '/' ∉ m.nodeId.toList) →
        ((start site parseFile ref).after rt events).request.answer = some bundle →
        Drains.Queued job owner site → site.db.getContributorRef job.id = some ref →
        ∀ f ∈ job.whole, (job.id ++ "/" ++ f.1, .raw f.2) ∈ bundle.files := by
  intro h
  obtain ⟨bundle, hbundle⟩ := Option.isSome_iff_exists.mp (show
    ((start Drains.logSite Drains.logRow "alice").after .ascii missedRun).request.answer.isSome by
      decide +kernel)
  have hnames : ((start Drains.logSite Drains.logRow "alice").after .ascii
      missedRun).request.answer.map (·.files.map (·.1)) = some ["n1/manifest.json"] := by decide +kernel
  obtain ⟨node, hqueued⟩ := Drains.logSite_queued
  have hfile := h .ascii Drains.logSite Drains.logRow "alice" missedRun bundle Intake.logJob node
    logSite_tidy (by decide +kernel) hbundle hqueued (by decide +kernel)
  have hwhole : Intake.logJob.whole = [("000_log.csv", Intake.logBytes)] := by decide +kernel
  have hid : Intake.logJob.id = "n1" := by decide +kernel
  rw [hwhole, hid] at hfile
  have hmem := List.mem_map_of_mem (f := (·.1)) (hfile _ List.mem_cons_self)
  rw [hbundle, Option.map_some, Option.some.injEq] at hnames
  rw [hnames] at hmem
  revert hmem
  decide

end Exporting

end GridWitness.Survey
