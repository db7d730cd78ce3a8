import GridWitness.Survey.Export
import GridWitness.Survey.FileLaws

namespace GridWitness.Survey

open Library Server

namespace Area

variable {area : Area} {d : Drain} {id name : String}

@[simp] theorem file_archive : Area.archive.file d id name = d.archiveFile id name := rfl

@[simp] theorem file_inbox : Area.inbox.file d id name = d.inboxFile id name := rfl

theorem mem_scan : name ∈ area.scan d id ↔ (area.file d id name).isSome := by
  rw [scan, List.mem_insertionSort, file]
  cases (area.folders d.site.surveys).lookup id with
  | none => simp
  | some folder => simp [AList.lookup_isSome, AList.mem_keys]

theorem scan_nodup (area : Area) (d : Drain) (id : String) : (area.scan d id).Nodup :=
  (List.perm_insertionSort _ _).nodup_iff.mpr (AList.keys_nodup _)

end Area

theorem cons_slash_inj {as bs ms ns : List Char} (ha : '/' ∉ as) (hb : '/' ∉ bs)
    (h : as ++ '/' :: ms = bs ++ '/' :: ns) : as = bs ∧ ms = ns := by
  induction as generalizing bs with
  | nil =>
    cases bs with
    | nil => exact ⟨rfl, (List.cons.inj h).2⟩
    | cons b bs => exact absurd ((List.cons.inj h).1 ▸ List.mem_cons_self) hb
  | cons a as ih =>
    cases bs with
    | nil => exact absurd ((List.cons.inj h).1 ▸ List.mem_cons_self) ha
    | cons b bs =>
      obtain ⟨rfl, htail⟩ := List.cons.inj h
      obtain ⟨rfl, rfl⟩ := ih (fun hmem => ha (List.mem_cons_of_mem _ hmem))
        (fun hmem => hb (List.mem_cons_of_mem _ hmem)) htail
      exact ⟨rfl, rfl⟩

/-- An entry of the zip tells the node and the name of its file, for ids without a slash. -/
theorem entry_inj {a b m n : String} (ha : '/' ∉ a.toList) (hb : '/' ∉ b.toList)
    (h : a ++ "/" ++ m = b ++ "/" ++ n) : a = b ∧ m = n := by
  have hlist := congrArg String.toList h
  simp only [String.toList_append, List.append_assoc] at hlist
  obtain ⟨hid, hname⟩ := cons_slash_inj ha hb hlist
  exact ⟨String.toList_injective hid, String.toList_injective hname⟩

/-- The zip has an entry for a file of a node. -/
def Named (files : List (String × Content)) (id name : String) : Prop :=
  id ++ "/" ++ name ∈ files.map (·.1)

theorem named_append {files : List (String × Content)} {id name : String} {content : Content}
    {j n : String} : Named (files ++ [(id ++ "/" ++ name, content)]) j n ↔
      Named files j n ∨ j ++ "/" ++ n = id ++ "/" ++ name := by
  simp [Named]

theorem Export.step_ref (d : Drain) (now : String) (x : Export) :
    (x.step d now).contributorRef = x.contributorRef := by
  simp only [step]
  repeat' split
  all_goals rfl

section Request

variable (nodes : List Node) (files : List (String × Content)) (d : Drain)

/-- Nodes of the account the request has not come to. -/
structure Ahead (todo : List Node) : Prop where
  mine : ∀ m ∈ todo, m ∈ nodes
  nodup : (todo.map (·.nodeId)).Nodup
  fresh : ∀ m ∈ todo, ∀ n, ¬Named files m.nodeId n

/-- The files of a node the request has not come to, and the nodes after it. -/
structure AtNode (area : Area) (node : Node) (names : List String) (todo : List Node) : Prop where
  mine : node ∈ nodes
  rest : Ahead nodes files todo
  apart : node.nodeId ∉ todo.map (·.nodeId)
  nodup : names.Nodup
  fresh : ∀ n ∈ names, ¬Named files node.nodeId n
  archived : area = .archive → ∀ n, Named files node.nodeId n → (d.archiveFile node.nodeId n).isSome

/-- What holds of a request at each stage of it; no request fails. -/
def Orderly : ExportStage → Prop
  | .pending => files = []
  | .next todo => Ahead nodes files todo
  | .copying area node names _ todo => AtNode nodes files d area node names todo
  | .writing area node name names _ todo =>
    AtNode nodes files d area node (name :: names) todo ∧ (area.file d node.nodeId name).isSome
  | .finished bundle => bundle.files = files
  | .failed => False

variable {nodes files d} {area : Area} {node : Node} {name : String} {names : List String}
  {todo : List Node}

theorem AtNode.skip (h : AtNode nodes files d area node (name :: names) todo) :
    AtNode nodes files d area node names todo where
  mine := h.mine
  rest := h.rest
  apart := h.apart
  nodup := (List.nodup_cons.mp h.nodup).2
  fresh n hn := h.fresh n (List.mem_cons_of_mem _ hn)
  archived := h.archived

theorem AtNode.copy (hslash : ∀ m ∈ nodes, '/' ∉ m.nodeId.toList)
    (h : AtNode nodes files d area node (name :: names) todo) {content : Content}
    (hfile : area.file d node.nodeId name = some content) :
    AtNode nodes (files ++ [(node.nodeId ++ "/" ++ name, content)]) d area node names todo := by
  obtain ⟨hname, hnames⟩ := List.nodup_cons.mp h.nodup
  have hinj : ∀ m ∈ nodes, ∀ n, m.nodeId ++ "/" ++ n = node.nodeId ++ "/" ++ name →
      m.nodeId = node.nodeId ∧ n = name :=
    fun m hm n => entry_inj (hslash m hm) (hslash node h.mine)
  refine ⟨h.mine, ⟨h.rest.mine, h.rest.nodup, fun m hm n hnamed => ?_⟩, h.apart, hnames,
    fun n hn hnamed => ?_, fun harea n hnamed => ?_⟩
  · rcases named_append.mp hnamed with hnamed | heq
    · exact h.rest.fresh m hm n hnamed
    · have hid := (hinj m (h.rest.mine m hm) n heq).1
      exact h.apart (hid ▸ List.mem_map_of_mem hm)
  · rcases named_append.mp hnamed with hnamed | heq
    · exact h.fresh n (List.mem_cons_of_mem _ hn) hnamed
    · exact hname ((hinj node h.mine n heq).2 ▸ hn)
  · rcases named_append.mp hnamed with hnamed | heq
    · exact h.archived harea n hnamed
    · rw [(hinj node h.mine n heq).2]
      subst harea
      exact Option.isSome_iff_exists.mpr ⟨content, hfile⟩

theorem nodes_nodup (db : Database) (ref : String) :
    ((db.getNodesByContributor ref).map (·.nodeId)).Nodup := by
  have hperm := (List.perm_insertionSort (fun n m : Node => m.createdUtc ≤ n.createdUtc)
    (db.nodes.keys.filterMap fun nodeId =>
      if db.getContributorRef nodeId = some ref then db.getNode nodeId else none)).map (·.nodeId)
  refine hperm.nodup_iff.mpr ?_
  have hsub : ∀ ids : List String, ((ids.filterMap fun nodeId =>
      if db.getContributorRef nodeId = some ref then db.getNode nodeId else none).map
        (·.nodeId)).Sublist ids := by
    intro ids
    induction ids with
    | nil => exact List.Sublist.slnil
    | cons id ids ih =>
      rw [List.filterMap_cons]
      split
      · exact ih.cons id
      · next node hnode =>
        split at hnode
        · rw [List.map_cons, Database.getNode_nodeId hnode]
          exact ih.cons_cons id
        · cases hnode
  exact (AList.keys_nodup _).sublist (hsub _)

theorem Ahead.enter (h : Ahead nodes files (node :: todo)) :
    AtNode nodes files d .archive node (Area.archive.scan d node.nodeId) todo := by
  obtain ⟨hnode, htodo⟩ := List.nodup_cons.mp h.nodup
  have hfresh := h.fresh node List.mem_cons_self
  exact ⟨h.mine node List.mem_cons_self,
    ⟨fun m hm => h.mine m (List.mem_cons_of_mem _ hm), htodo,
      fun m hm => h.fresh m (List.mem_cons_of_mem _ hm)⟩,
    hnode, Area.scan_nodup _ _ _, fun n _ => hfresh n, fun _ n hnamed => absurd hnamed (hfresh n)⟩

/-- The inbox is scanned for files the archive did not have. -/
theorem AtNode.turn (htidy : Tidy d) (h : AtNode nodes files d .archive node [] todo)
    (hmanifest : ¬(Named files node.nodeId "manifest.json" ∧
      (d.inboxFile node.nodeId "manifest.json").isSome)) :
    AtNode nodes files d .inbox node (Area.inbox.scan d node.nodeId) todo := by
  refine ⟨h.mine, h.rest, h.apart, Area.scan_nodup _ _ _, fun n hn hnamed => ?_,
    fun harea => by cases harea⟩
  have hfile : (d.inboxFile node.nodeId n).isSome := Area.mem_scan.mp hn
  by_cases hname : n = "manifest.json"
  · exact hmanifest (hname ▸ ⟨hnamed, hfile⟩)
  · have harchived := h.archived rfl n hnamed
    rw [htidy.apart node.nodeId n hname hfile] at harchived
    cases harchived

/-- A request takes the inbox of a node without the manifest it has from the archive already. -/
def Careful (files : List (String × Content)) (d : Drain) : ExportStage → Prop
  | .copying .archive node [] _ _ =>
    ¬(Named files node.nodeId "manifest.json" ∧ (d.inboxFile node.nodeId "manifest.json").isSome)
  | _ => True

theorem step_orderly (hslash : ∀ m ∈ nodes, '/' ∉ m.nodeId.toList) (htidy : Tidy d) {x : Export}
    (hnodes : d.site.db.getNodesByContributor x.contributorRef = nodes)
    (hunique : (x.files.map (·.1)).Nodup) (hx : Orderly nodes x.files d x.stage) (now : String)
    (hcareful : Careful x.files d x.stage) :
    ((x.step d now).files.map (·.1)).Nodup ∧
      Orderly nodes (x.step d now).files d (x.step d now).stage := by
  obtain ⟨ref, files, surveys, stage⟩ := x
  cases stage with
  | pending =>
    obtain rfl : files = [] := hx
    refine ⟨hunique, ?_, ?_, fun _ _ _ h => ?_⟩
    · exact fun m hm => hnodes ▸ hm
    · exact nodes_nodup _ _
    · cases h
  | next todo =>
    cases todo with
    | nil => exact ⟨hunique, rfl⟩
    | cons node todo => exact ⟨hunique, Ahead.enter hx⟩
  | copying area node names fileCount todo =>
    cases names with
    | cons name names =>
      simp only [Export.step]
      split
      · next hfile => exact ⟨hunique, hx, hfile⟩
      · exact ⟨hunique, hx.skip⟩
    | nil =>
      cases area with
      | archive => exact ⟨hunique, hx.turn htidy hcareful⟩
      | inbox => exact ⟨hunique, hx.rest⟩
  | writing area node name names fileCount todo =>
    obtain ⟨hat, hfile⟩ := hx
    obtain ⟨content, hcontent⟩ := Option.isSome_iff_exists.mp hfile
    simp only [Export.step, hcontent]
    refine ⟨?_, hat.copy hslash hcontent⟩
    rw [List.map_append, List.map_singleton]
    refine List.nodup_append.mpr ⟨hunique, List.nodup_singleton _, fun a ha b hb => ?_⟩
    rw [List.mem_singleton.mp hb]
    rintro rfl
    exact hat.fresh name List.mem_cons_self ha
  | finished bundle => exact ⟨hunique, hx⟩
  | failed => exact hx.elim

end Request

/-- The request still counts on the inbox for a file of a node. -/
def ExportStage.awaits (id name : String) : ExportStage → Bool
  | .copying .archive node _ _ _ => node.nodeId = id
  | .writing .archive node _ _ _ _ => node.nodeId = id
  | .copying .inbox node names _ _ => node.nodeId = id && name ∈ names
  | .writing .inbox node current names _ _ => node.nodeId = id && name ∈ current :: names
  | _ => false

/-- The request is about to copy a file out of the inbox of a node. -/
def ExportStage.opens (id : String) : ExportStage → Bool
  | .writing .inbox node _ _ _ _ => node.nodeId = id
  | _ => false

namespace Exporting

/-- The worker takes no file out of an inbox that the request still counts on, and the request scans
no inbox with a manifest it has from the archive already. -/
def careful (x : Exporting) : ExportEvent → Bool
  | .request _ =>
    match x.request.stage with
    | .copying .archive node [] _ _ =>
      node.nodeId ++ "/" ++ "manifest.json" ∉ x.request.files.map (·.1) ||
        (x.drains.drain.inboxFile node.nodeId "manifest.json").isNone
    | _ => true
  | .worker (.effect _) =>
    match x.drains.stage with
    | .survey id _ (.moving _ _ _ _ (name :: _)) => !x.request.stage.awaits id name
    | .survey id _ (.cleaning _ _) => !x.request.stage.opens id
    | _ => true
  | .worker _ => true

/-- The invariant of an export beside its worker. -/
structure Sound (nodes : List Node) (x : Exporting) : Prop where
  tidy : Tidy x.drains.drain
  gone : x.drains.Gone
  mine : x.drains.drain.site.db.getNodesByContributor x.request.contributorRef = nodes
  unique : (x.request.files.map (·.1)).Nodup
  orderly : Orderly nodes x.request.files x.drains.drain x.request.stage

variable {nodes : List Node} {x : Exporting}

theorem careful_request {now : String} (h : x.careful (.request now)) :
    Careful x.request.files x.drains.drain x.request.stage := by
  simp only [careful] at h
  revert h
  cases hstage : x.request.stage with
  | copying area node names fileCount todo =>
    cases area with
    | inbox => exact fun _ => trivial
    | archive =>
      cases names with
      | cons name names => exact fun _ => trivial
      | nil =>
        rintro h ⟨hnamed, hfile⟩
        simp only [Bool.or_eq_true, decide_eq_true_eq] at h
        rcases h with h | h
        · exact h hnamed
        · simp [Option.isNone_iff_eq_none.mp h] at hfile
  | _ => exact fun _ => trivial

/-- A file about to be copied out of the inbox is not taken away. -/
theorem opened_stays (hgone : x.drains.Gone) (rt : Runtime) {e : DrainEvent}
    (hcareful : x.careful (.worker e)) {node : Node} {name : String} {names : List String}
    {fileCount : Nat} {todo : List Node}
    (hstage : x.request.stage = .writing .inbox node name names fileCount todo)
    (hlive : (x.drains.drain.site.db.getNode node.nodeId).isSome)
    (hfile : (x.drains.drain.inboxFile node.nodeId name).isSome) :
    ((x.drains.step rt e).drain.inboxFile node.nodeId name).isSome := by
  rcases x.drains.step_file rt e node.nodeId name with ⟨hin, -⟩ |
    ⟨tick, remaining, stage, rfl, hsurvey, hchange⟩
  · exact hin ▸ hfile
  · cases hchange with
    | same hin => exact hin ▸ hfile
    | archived _ hin => exact hin ▸ hfile
    | requeued _ hin => exact hin
    | moved hmoving =>
      obtain ⟨m, w, accepted, dups, left, rfl⟩ := hmoving
      simp [careful, hsurvey, hstage, ExportStage.awaits] at hcareful
    | cleaned hcleaning =>
      obtain ⟨accepted, files, rfl⟩ := hcleaning
      simp [careful, hsurvey, hstage, ExportStage.opens] at hcareful
    | purged hpurging =>
      rw [hgone _ remaining stage hsurvey hpurging] at hlive
      cases hlive

theorem step_sound (hslash : ∀ m ∈ nodes, '/' ∉ m.nodeId.toList) (hx : Sound nodes x) (rt : Runtime)
    (e : ExportEvent) (hcareful : x.careful e) : Sound nodes (x.step rt e) := by
  cases e with
  | request now =>
    obtain ⟨hunique, horderly⟩ :=
      step_orderly hslash hx.tidy hx.mine hx.unique hx.orderly now (careful_request hcareful)
    refine ⟨hx.tidy, hx.gone, ?_, hunique, horderly⟩
    rw [step, Export.step_ref]
    exact hx.mine
  | worker e =>
    have hlive : ∀ node ∈ nodes, (x.drains.drain.site.db.getNode node.nodeId).isSome := by
      intro node hnode
      rw [← hx.mine] at hnode
      rw [Database.mem_getNodesByContributor hnode, Option.isSome_some]
    have hat : ∀ area node names todo, AtNode nodes x.request.files x.drains.drain area node names todo →
        AtNode nodes x.request.files (x.drains.step rt e).drain area node names todo :=
      fun area node names todo h => ⟨h.mine, h.rest, h.apart, h.nodup, h.fresh, fun harea n hnamed =>
        Drains.step_archived hx.gone rt e (hlive node h.mine) (h.archived harea n hnamed)⟩
    refine ⟨Drains.step_tidy hx.tidy rt e, Drains.step_gone hx.gone rt e, ?_, hx.unique, ?_⟩
    · rw [step, Drains.step_db]
      exact hx.mine
    · have horderly := hx.orderly
      simp only [step]
      cases hstage : x.request.stage with
      | pending => rwa [hstage] at horderly
      | next todo => rwa [hstage] at horderly
      | copying area node names fileCount todo =>
        rw [hstage] at horderly
        exact hat _ _ _ _ horderly
      | writing area node name names fileCount todo =>
        rw [hstage] at horderly
        refine ⟨hat _ _ _ _ horderly.1, ?_⟩
        have hnode := hlive node horderly.1.mine
        cases area with
        | archive => exact Drains.step_archived hx.gone rt e hnode horderly.2
        | inbox => exact opened_stays hx.gone rt hcareful hstage hnode horderly.2
      | finished bundle => rwa [hstage] at horderly
      | failed => rwa [hstage] at horderly

end Exporting

end GridWitness.Survey
