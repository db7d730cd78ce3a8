import GridWitness.Library.Dict
import GridWitness.Server.HistoryLaws

namespace GridWitness.Server

open Library Survey

/-- The region keys offered to a contributor. -/
def regions : List String :=
  ["NORTH_SCOTLAND", "CENTRAL_SCOTLAND", "SOUTH_SCOTLAND", "NORTH_EAST", "NORTH_WEST",
   "MERSEY", "YORKSHIRE", "MIDLANDS", "EAST_MIDLANDS", "EAST_ENGLAND", "LONDON",
   "SOUTH_WALES", "SOUTH_WEST", "SOUTHERN", "SOUTH_EAST"]

/-- The coarse keys a location may be published as. -/
def coarseKeys : List String :=
  "GSP_UNKNOWN" :: postcodeAreaRegion.map (·.2) ++ regions.map ("DNO_" ++ ·)

def CoarseRef (locRef : Option String) : Prop := ∀ key ∈ locRef, key ∈ coarseKeys

/-- The region text of a request in the region tier. -/
def Request.region : Request → Option String
  | .register body _ _ _ => if body.locTier = .region then body.region else none
  | .updateNode _ body _ => if body.locTier = some .region then body.region else none
  | .adminUpdateNode _ _ _ body => if body.locTier = some .region then body.region else none
  | .surveyUpload _ form _ _ => if surveyTier form.locTier = some .region then form.region else none
  | _ => none

/-- An accepted request that names a region names a published one. -/
def Op.Listed (rt : Runtime) (s : App) : Op → Prop
  | .request r => (s.answer rt r).isOk → ∀ region ∈ r.region, region ∈ regions
  | .drain _ _ => True

instance (rt : Runtime) (s : App) : ∀ op, Decidable (Op.Listed rt s op)
  | .request r =>
    inferInstanceAs (Decidable ((s.answer rt r).isOk → ∀ region ∈ r.region, region ∈ regions))
  | .drain _ _ => inferInstanceAs (Decidable True)

theorem postcode_coarse (rt : Runtime) (postcode : String) :
    (List.lookup (postcodeArea rt postcode) postcodeAreaRegion).getD "GSP_UNKNOWN" ∈ coarseKeys := by
  cases h : List.lookup (postcodeArea rt postcode) postcodeAreaRegion with
  | none => exact List.mem_cons_self
  | some key =>
    have hmem : (postcodeArea rt postcode, key) ∈ postcodeAreaRegion := mem_of_lookup h
    exact List.mem_append_left _ (List.mem_cons_of_mem _ (List.mem_map.mpr ⟨_, hmem, rfl⟩))

/-- `DNO_` with a region after it is a coarse key only for a published region. -/
theorem dno_coarse {region : String} : "DNO_" ++ region ∈ coarseKeys ↔ region ∈ regions := by
  constructor
  · intro h
    have hgsp : ∀ key ∈ "GSP_UNKNOWN" :: postcodeAreaRegion.map (·.2),
        key.toList.take 4 = "GSP_".toList := by decide +kernel
    rcases List.mem_append.mp h with h | h
    · have htake := hgsp _ h
      simp at htake
    · obtain ⟨region', hmem, heq⟩ := List.mem_map.mp h
      rwa [(String.append_right_inj "DNO_").mp heq] at hmem
  · intro h
    exact List.mem_append_right _ (List.mem_map.mpr ⟨region, h, rfl⟩)

/-- A location is published as a coarse key exactly when it names no unpublished region. -/
theorem resolveLocation_coarse {rt : Runtime} {tier : LocTier}
    {postcode region clientIp : Option String} :
    CoarseRef (resolveLocation rt tier postcode region clientIp none).locRef ↔
      ∀ text ∈ (if tier = .region then region else none), text ≠ "" → text ∈ regions := by
  cases tier with
  | anon => simp [CoarseRef, resolveLocation, regionFromIp]
  | region =>
    cases region with
    | none => simp [CoarseRef, resolveLocation, truthy]
    | some text =>
      by_cases h : text = ""
      · simp [CoarseRef, resolveLocation, truthy, h]
      · simp [CoarseRef, resolveLocation, truthy, h, dno_coarse]
  | dataShare =>
    have h : CoarseRef (resolveLocation rt .dataShare postcode region clientIp none).locRef := by
      simp only [CoarseRef, resolveLocation]
      split
      · rintro _ ⟨⟩
        exact postcode_coarse rt _
      · exact fun _ hkey => by cases hkey
    simpa using h

theorem Request.location_coarse {rt : Runtime} {r : Request} {id : String} {tier : LocTier}
    {loc : Location} (h : r.location rt = some (id, tier, loc))
    (hlisted : ∀ region ∈ r.region, region ∈ regions) : CoarseRef loc.locRef := by
  cases r with
  | register body xGwInternal clientIp draw =>
    cases h
    exact resolveLocation_coarse.mpr fun text htext _ => hlisted text htext
  | updateNode authorization body clientIp =>
    obtain ⟨t, ht, htuple⟩ := Option.map_eq_some_iff.mp h
    cases htuple
    refine resolveLocation_coarse.mpr fun text htext _ => hlisted text ?_
    simpa [Request.region, ht] using htext
  | adminUpdateNode xGwInternal nodeId contributorRef body =>
    obtain ⟨t, ht, htuple⟩ := Option.map_eq_some_iff.mp h
    cases htuple
    refine resolveLocation_coarse.mpr fun text htext _ => hlisted text ?_
    simpa [Request.region, ht] using htext
  | surveyUpload xGwInternal form draw uploadedUtc =>
    obtain ⟨t, ht, htuple⟩ := Option.map_eq_some_iff.mp h
    cases htuple
    refine resolveLocation_coarse.mpr fun text htext _ => hlisted text ?_
    simpa [Request.region, ht] using htext
  | samples c => cases h
  | deleteNode authorization nodeId now => cases h
  | adminDeleteNode xGwInternal nodeId contributorRef now => cases h

/-- Every stored location is a coarse key. -/
structure Database.Coarse (db : Database) : Prop where
  consistent : db.Consistent
  coarse : ∀ id row, db.nodes.lookup id = some row → CoarseRef row.locRef

theorem Database.Coarse.deleteNode {db : Database} (h : db.Coarse) (now id : String) :
    (db.deleteNode now id).1.Coarse := by
  refine ⟨deleteNode_consistent h.consistent now id, fun j row hrow => ?_⟩
  rcases deleteNode_cases db now id with ⟨heq, -⟩ | ⟨heq, -⟩
  · rw [heq] at hrow
    exact h.coarse j row hrow
  · simp only [heq, erase, Table.lookup_updateRow] at hrow
    split at hrow
    · obtain ⟨old, hold, rfl⟩ := Option.map_eq_some_iff.mp hrow
      exact h.coarse id old hold
    · exact h.coarse j row hrow

theorem Database.Coarse.updateConsent {db : Database} (h : db.Coarse) (id : String)
    (channels : Option (List Channel)) {loc : Option LocationUpdate}
    (hloc : ∀ l ∈ loc, CoarseRef l.locRef) : (db.updateConsent id channels loc).Coarse := by
  refine ⟨updateConsent_consistent _ _ _ h.consistent, fun j row hrow => ?_⟩
  rw [lookup_updateConsent] at hrow
  split at hrow
  · obtain ⟨old, hold, rfl⟩ := Option.map_eq_some_iff.mp hrow
    cases loc with
    | none => exact h.coarse id old hold
    | some l => exact hloc l rfl
  · exact h.coarse j row hrow

theorem Database.Coarse.createNode {db : Database} (h : db.Coarse) (now : String) {n : NewNode}
    (hn : CoarseRef n.locRef) : (db.createNode now n).1.Coarse := by
  refine ⟨createNode_consistent h.consistent now n, fun j row hrow => ?_⟩
  rcases createNode_cases h.consistent now n with heq | ⟨db', heq, -, hnodes, -⟩
  · rw [heq] at hrow
    exact h.coarse j row hrow
  · rw [heq] at hrow
    simp only [hnodes] at hrow
    split at hrow
    · cases hrow
      exact hn
    · exact h.coarse j row hrow

theorem handle_coarse {rt : Runtime} {s : App} {r : Request} (hs : s.db.Coarse)
    (h : Op.Listed rt s (.request r)) : (s.handle rt r).db.Coarse := by
  by_cases hsamples : ∃ c, r = .samples c
  · obtain ⟨c, rfl⟩ := hsamples
    rw [App.handle, (postSamples_frame rt s c).1]
    exact hs
  · have houtcome := handle_outcome rt s r (not_exists.mp hsamples)
    simp only [Op.Listed] at h
    generalize s.handle rt r = s', s.answer rt r = answer at houtcome h ⊢
    cases houtcome with
    | refuse e => exact hs
    | create draw n loc surveys creates created =>
      refine hs.createNode draw.now ?_
      rw [creates.resolved.1]
      exact Request.location_coarse creates.location (h rfl)
    | collide now n refused =>
      rw [hs.consistent.collide refused]
      exact hs
    | consent p args asked prepared =>
      refine hs.updateConsent args.nodeId args.channels fun l hl => ?_
      rw [prepared.location] at hl
      obtain ⟨⟨id, tier, loc⟩, hset, rfl⟩ := Option.map_eq_some_iff.mp hl
      exact Request.location_coarse (asked ▸ hset) (h rfl)
    | delete now id surveys => exact hs.deleteNode now id

/-- A data line that publishes a coarse key or no location at all. -/
def CoarseLine (kind : Kind) (l : Line) : Prop :=
  l.get kind "loc_ref" = .null ∨ ∃ key ∈ coarseKeys, l.get kind "loc_ref" = .text key

theorem LineOfLive.coarse {db : Database} (hdb : db.Coarse) {kind : Kind} {l : Line}
    (h : LineOfLive db kind l) : CoarseLine kind l := by
  obtain ⟨node, hnode, r, hr, rfl⟩ := h
  have hcell : r.get "loc_ref" = .ofText node.locRef := by
    cases hr <;> rfl
  have href : CoarseRef node.locRef := by
    simp only [Database.getNode] at hnode
    split at hnode
    · next row hrow =>
      split at hnode
      · rw [← Option.some.inj hnode]
        exact hdb.coarse node.nodeId row hrow
      · cases hnode
    · cases hnode
  rw [CoarseLine, Kind.csvLine_get, if_pos (by cases kind <;> decide), hcell]
  cases h : node.locRef with
  | none => exact Or.inl rfl
  | some key => exact Or.inr ⟨key, href key h, rfl⟩

/-- In a history whose accepted requests name no region but the published ones, every location
written to staging is a coarse key. -/
theorem published_coarse (rt : Runtime) (internalKey : Option String) (rowsPerMin : ℚ)
    (ops : List Op) (h : Trace.Along (App.step rt) (Op.Listed rt) (.start internalKey rowsPerMin) ops) :
    ∀ kind l, ((App.start internalKey rowsPerMin).after rt ops).tree.Has kind l →
      CoarseLine kind l := by
  let I : App → Prop := fun s => s.db.Coarse ∧ ∀ kind l, s.tree.Has kind l → CoarseLine kind l
  have keep : ∀ s op, I s → Op.Listed rt s op → I (s.step rt op) := by
    rintro s op ⟨hdb, htree⟩ hlisted
    refine ⟨?_, fun kind l hl => ?_⟩
    · rcases step_db rt s op with heq | ⟨r, rfl, -⟩
      · rw [heq]
        exact hdb
      · exact handle_coarse hdb hlisted
    · exact ((step_staged rt s op).of_has hl).elim (htree kind l) fun h => h.coarse hdb
  have hstart : I (.start internalKey rowsPerMin) := by
    refine ⟨⟨Database.empty_consistent, fun id row hrow => ?_⟩, fun kind l hl => ?_⟩
    · simp [App.start] at hrow
    · exact absurd hl StagingTree.not_has_empty
  exact (Trace.Along.invariant (I := I) keep h hstart).2

/-- A node in the region tier sends one reading. -/
def regionRun (region : String) : List Op :=
  [.request (.register { locTier := .region, region := some region } none none
      ⟨"n1", "secret", "2026-07-10T08:00:00Z"⟩),
   .request (.samples
      { authorization := some "Bearer secret"
        body :=
          { nodeId := "n1"
            electrical := [.mains "2026-07-10T09:00:00Z"] }
        monotonic := 0 })]

theorem published_coarse_regionRun :
    Trace.Along (App.step .ascii) (Op.Listed .ascii) (.start none 6000) (regionRun "LONDON") ∧
      ∀ kind l, ((App.start none 6000).after .ascii (regionRun "LONDON")).tree.Has kind l →
        CoarseLine kind l := by
  have hlisted : Trace.Along (App.step .ascii) (Op.Listed .ascii) (.start none 6000)
      (regionRun "LONDON") := by decide +kernel
  exact ⟨hlisted, published_coarse .ascii none 6000 (regionRun "LONDON") hlisted⟩

/-- Whatever stands for a region is published as it was typed. -/
theorem address_published :
    ¬ ∀ (rt : Runtime) (internalKey : Option String) (rowsPerMin : ℚ) (ops : List Op),
      ∀ kind l, ((App.start internalKey rowsPerMin).after rt ops).tree.Has kind l →
        CoarseLine kind l := by
  intro h
  let s := (App.start none 6000).after .ascii (regionRun "12 Acacia Avenue")
  let p : StagingPath := ⟨.electrical, "2026-07-10", "09"⟩
  let l : Line := (s.tree.lines p).getLastD []
  have hhas : s.tree.Has .electrical l := by
    refine ⟨?_, p, rfl, ?_⟩
    · decide +kernel
    · decide +kernel
  have hcell : l.get .electrical "loc_ref" = .text "DNO_12 Acacia Avenue" := by decide +kernel
  rcases h .ascii none 6000 (regionRun "12 Acacia Avenue") .electrical l hhas with
    hnull | ⟨key, hkey, htext⟩
  · rw [hcell] at hnull
    cases hnull
  · rw [hcell] at htext
    cases htext
    revert hkey
    decide +kernel

end GridWitness.Server
