import GridWitness.Portal.Dashboard
import GridWitness.Server.OutcomeLaws

namespace GridWitness.Portal

open Library Server

theorem consentGroups_keys : (consentGroups.map (·.1)).Nodup := by decide

theorem consentGroups_disjoint : consentGroups.Pairwise fun g h => g.2.Disjoint h.2 := by
  simp [consentGroups, List.Disjoint]

/-- Every channel stands behind some checkbox. -/
theorem consentGroups_cover (c : Channel) : ∃ g ∈ consentGroups, c ∈ g.2 := by
  cases c <;> decide

theorem mem_channelsForGroups {c : Channel} {keys : List String} :
    c ∈ channelsForGroups keys ↔ ∃ g ∈ consentGroups, g.1 ∈ keys ∧ c ∈ g.2 := by
  rw [channelsForGroups, List.mem_eraseDups, Blocks.mem_expand]

/-- What the portal sends holds each group whole or not at all. -/
theorem channelsForGroups_saturated (keys : List String) :
    consentGroups.Saturated (channelsForGroups keys) := by
  have h := Blocks.expand_saturated consentGroups_disjoint keys
  simpa only [Blocks.Saturated, channelsForGroups, List.mem_eraseDups] using h

theorem mem_channelsForGroups_touching {c : Channel} {channels : List Channel} :
    c ∈ channelsForGroups (groupsFromChannels channels) ↔
      ∃ g ∈ consentGroups, c ∈ g.2 ∧ ∃ d ∈ g.2, d ∈ channels := by
  rw [channelsForGroups, List.mem_eraseDups]
  exact Blocks.mem_expand_touching consentGroups_keys

theorem getNode_updateConsent {db : Database} {id : String} {before : Node} (channels : List Channel)
    (loc : Option Database.LocationUpdate) (hlive : db.getNode id = some before) :
    ∃ after, (db.updateConsent id (some channels) loc).getNode id = some after ∧
      after.channels = sorted channels := by
  simp only [Database.getNode, Database.lookup_updateConsent, if_true] at hlive ⊢
  cases hrow : db.nodes.lookup id with
  | none =>
    rw [hrow] at hlive
    cases hlive
  | some row =>
    simp only [hrow] at hlive
    split at hlive
    · next hopen =>
      refine ⟨⟨Database.consentRow (some channels) loc row, id⟩, ?_, rfl⟩
      simp only [Option.map_some]
      exact if_pos hopen
    · cases hlive

/-- A PATCH of the channels is refused, or it stores them. -/
theorem updateNode_channels (rt : Runtime) (s : App) (xGwInternal : Option String) {id : String}
    (ref : String) (body : AdminConsentUpdate) {channels : List Channel} (hbody : body.channels = some channels)
    {before : Node} (hlive : s.db.getNode id = some before) :
    (∃ e, Admin.updateNode rt s xGwInternal id ref body = (s, .error e)) ∨
      ∃ loc after, (Admin.updateNode rt s xGwInternal id ref body).2 = .ok loc ∧
        (Admin.updateNode rt s xGwInternal id ref body).1.db.getNode id = some after ∧
        after.channels = sorted channels := by
  simp only [Admin.updateNode]
  cases requireInternal s.internalKey xGwInternal with
  | error e => exact Or.inl ⟨e, rfl⟩
  | ok _ =>
    cases howned : ownedNode s.db id ref with
    | error e => exact Or.inl ⟨e, rfl⟩
    | ok node =>
      have hid : node.nodeId = id := Database.getNode_nodeId (ownedNode_ok howned)
      simp only [changeConsent, hbody, hid]
      split
      · obtain ⟨after, hafter⟩ := getNode_updateConsent channels none hlive
        exact Or.inr ⟨_, after, rfl, hafter⟩
      · split
        · next e _ => exact Or.inl ⟨e, rfl⟩
        · obtain ⟨after, hafter⟩ := getNode_updateConsent channels (some _) hlive
          exact Or.inr ⟨_, after, rfl, hafter⟩

/-- A PATCH that is refused leaves the server as it was. -/
theorem updateNode_error {rt : Runtime} {s : App} {xGwInternal : Option String} {id ref : String}
    {body : AdminConsentUpdate} {e : Failure} (h : (Admin.updateNode rt s xGwInternal id ref body).2 = .error e) :
    (Admin.updateNode rt s xGwInternal id ref body).1 = s := by
  simp only [Admin.updateNode] at h ⊢
  cases hkey : requireInternal s.internalKey xGwInternal with
  | error e => rfl
  | ok _ =>
    cases howned : ownedNode s.db id ref with
    | error e => rfl
    | ok node =>
      simp only [hkey, howned, changeConsent] at h ⊢
      split at h
      · cases h
      · split at h
        · rfl
        · cases h

namespace Dashboard

/-- So does a form that comes to an error message. -/
theorem updateNode_refused {rt : Runtime} {s : App} {xGwInternal : Option String} {ref id text : String}
    {emailConfirmed : Bool} {vm : ManageNodeVm}
    (h : (updateNode rt s xGwInternal ref emailConfirmed id vm).2 = .error text) :
    (updateNode rt s xGwInternal ref emailConfirmed id vm).1 = s := by
  simp only [updateNode] at h ⊢
  split at h
  · next hunconfirmed => rw [if_pos hunconfirmed]
  · next hconfirmed =>
    rw [if_neg hconfirmed]
    cases hresult : Admin.updateNode rt s xGwInternal id ref (consentUpdate vm) with
    | mk s' result =>
      cases result with
      | ok loc =>
        rw [hresult] at h
        cases h
      | error e =>
        have hsame := updateNode_error (congrArg Prod.snd hresult)
        rw [hresult] at hsame
        exact hsame

/-- A Manage page shows a live node, with the checkboxes of its stored channels. -/
theorem node_view {s : App} {xGwInternal : Option String} {ref id : String} {emailConfirmed : Bool}
    {vm : ManageNodeVm} (h : node s xGwInternal ref emailConfirmed id = .view vm) :
    ∃ before, s.db.getNode id = some before ∧ vm.groups = groupsFromChannels before.channels := by
  simp only [node, getNode, Admin.listNodes] at h
  cases hkey : requireInternal s.internalKey xGwInternal with
  | error e => simp [hkey, Except.map] at h
  | ok _ =>
    simp only [hkey, Except.map] at h
    split at h
    · cases h
    · cases h
    · next view hview =>
      cases h
      have hfound := Except.ok.inj hview
      obtain ⟨before, hbefore, rfl⟩ := List.mem_map.mp (List.mem_of_find?_eq_some hfound)
      have hid := List.find?_some hfound
      rw [decide_eq_true_eq] at hid
      change before.nodeId = id at hid
      refine ⟨before, hid ▸ Database.mem_getNodesByContributor hbefore, ?_⟩
      simp only [groupsFromChannels, Blocks.touching, AdminNodeView.ofNode, mem_sorted]

/-- A form posted with the checkboxes as they were shown stores frequency and every group of which
some channel was stored, where it is not refused. -/
theorem updateNode_unchanged (rt : Runtime) {s : App} (xGwInternal : Option String) (ref : String)
    {id : String} (emailConfirmed : Bool) {before : Node} (hlive : s.db.getNode id = some before)
    (vm : ManageNodeVm) (hgroups : vm.groups = groupsFromChannels before.channels) :
    (updateNode rt s xGwInternal ref emailConfirmed id vm).1 = s ∨
      ∃ after, (updateNode rt s xGwInternal ref emailConfirmed id vm).1.db.getNode id = some after ∧
        ∀ c, c ∈ after.channels ↔ c = .frequencyHz ∨
          ∃ g ∈ consentGroups, c ∈ g.2 ∧ ∃ d ∈ g.2, d ∈ before.channels := by
  have hsent : ∀ c, c ∈ channelsForGroups
      (if "frequency" ∈ vm.groups then vm.groups else vm.groups ++ ["frequency"]) ↔
        c = .frequencyHz ∨ c ∈ channelsForGroups (groupsFromChannels before.channels) := by
    intro c
    have hfrequency : (∃ g ∈ consentGroups, g.1 = "frequency" ∧ c ∈ g.2) ↔ c = .frequencyHz := by
      simp [consentGroups]
    rw [← hfrequency, ← hgroups]
    simp only [mem_channelsForGroups]
    split
    · next hmem =>
      refine ⟨Or.inr, fun h => h.elim ?_ fun h => h⟩
      rintro ⟨g, hg, hkey, hc⟩
      exact ⟨g, hg, hkey ▸ hmem, hc⟩
    · simp only [List.mem_append, List.mem_singleton]
      grind
  simp only [updateNode]
  split
  · exact Or.inl rfl
  · rcases updateNode_channels rt s xGwInternal ref (consentUpdate vm) rfl hlive with
      ⟨e, heq⟩ | ⟨loc, after, hok, hafter, hchannels⟩
    · rw [heq]
      exact Or.inl rfl
    · refine Or.inr ⟨after, ?_, fun c => ?_⟩
      · split
        · next heq => rwa [heq] at hafter
        · next heq => rwa [heq] at hafter
      · rw [hchannels, mem_sorted, ← mem_channelsForGroups_touching]
        exact hsent c

/-- What the portal itself has stored is left as it is. -/
theorem updateNode_settled (rt : Runtime) {s : App} (xGwInternal : Option String) (ref : String)
    {id : String} (emailConfirmed : Bool) {before : Node} (hlive : s.db.getNode id = some before)
    {keys : List String} (hstored : ∀ c, c ∈ before.channels ↔ c ∈ channelsForGroups keys)
    (hfrequency : "frequency" ∈ keys) {vm : ManageNodeVm}
    (hgroups : vm.groups = groupsFromChannels before.channels) :
    ∃ after, (updateNode rt s xGwInternal ref emailConfirmed id vm).1.db.getNode id = some after ∧
      ∀ c, c ∈ after.channels ↔ c ∈ before.channels := by
  rcases updateNode_unchanged rt xGwInternal ref emailConfirmed hlive vm hgroups with hsame |
    ⟨after, hafter, hchannels⟩
  · rw [hsame]
    exact ⟨before, hlive, fun _ => Iff.rfl⟩
  · refine ⟨after, hafter, fun c => (hchannels c).trans ⟨?_, fun hc => ?_⟩⟩
    · rintro (rfl | ⟨g, hg, hcg, d, hdg, hd⟩)
      · exact (hstored _).mpr (mem_channelsForGroups.mpr ⟨_, List.mem_cons_self, hfrequency, List.mem_cons_self⟩)
      · refine (hstored c).mpr ((channelsForGroups_saturated keys g hg).elim (fun hall => hall c hcg) ?_)
        exact fun hnone => absurd ((hstored d).mp hd) (hnone d hdg)
    · obtain ⟨g, hg, hcg⟩ := consentGroups_cover c
      exact Or.inr ⟨g, hg, hcg, c, hcg, hc⟩

/-- Saving settings unchanged, at any point of any history: no channel is removed, no channel is added
but frequency and channels of a group shared in part, where every group is shared whole or not at all
nothing but frequency is added, and a submission that is refused changes nothing. -/
theorem saved_unchanged (rt : Runtime) (internalKey : Option String) (rowsPerMin : ℚ) (ops : List Op)
    (xGwInternal : Option String) (ref id : String) (emailConfirmed : Bool) (vm : ManageNodeVm)
    (tier : LocTier) (region postcode : Option String)
    (hpage : node ((App.start internalKey rowsPerMin).after rt ops) xGwInternal ref emailConfirmed id =
      .view vm) :
    let s := (App.start internalKey rowsPerMin).after rt ops
    let (s', told) := updateNode rt s xGwInternal ref emailConfirmed id
      { vm with locTier := tier, region, postcode }
    (∀ text, told = .error text → s' = s) ∧
    ∃ before after, s.db.getNode id = some before ∧ s'.db.getNode id = some after ∧
      (∀ c ∈ before.channels, c ∈ after.channels) ∧
      (∀ c ∈ after.channels, c ∈ before.channels ∨ c = .frequencyHz ∨
        ∃ g ∈ consentGroups, c ∈ g.2 ∧ ∃ d ∈ g.2, d ∈ before.channels) ∧
      (consentGroups.Saturated before.channels →
        ∀ c ∈ after.channels, c ∈ before.channels ∨ c = .frequencyHz) := by
  intro s
  generalize hposted : updateNode rt s xGwInternal ref emailConfirmed id
    { vm with locTier := tier, region, postcode } = posted
  obtain ⟨s', told⟩ := posted
  have hs' : s' = (updateNode rt s xGwInternal ref emailConfirmed id
    { vm with locTier := tier, region, postcode }).1 := by rw [hposted]
  refine ⟨fun text htold => ?_, ?_⟩
  · rw [hs']
    exact updateNode_refused (by rw [hposted]; exact htold)
  · obtain ⟨before, hlive, hgroups⟩ := node_view hpage
    have hstored := updateNode_unchanged rt xGwInternal ref emailConfirmed hlive
      { vm with locTier := tier, region, postcode } hgroups
    rw [← hs'] at hstored
    rcases hstored with rfl | ⟨after, hafter, hchannels⟩
    · exact ⟨before, before, hlive, hlive, fun _ hc => hc, fun _ hc => Or.inl hc, fun _ _ hc => Or.inl hc⟩
    · refine ⟨before, after, hlive, hafter, fun c hc => ?_, fun c hc => ?_, fun hwhole c hc => ?_⟩
      · obtain ⟨g, hg, hcg⟩ := consentGroups_cover c
        exact (hchannels c).mpr (Or.inr ⟨g, hg, hcg, c, hcg, hc⟩)
      · exact Or.inr ((hchannels c).mp hc)
      · refine ((hchannels c).mp hc).symm.imp_left ?_
        rintro ⟨g, hg, hcg, d, hdg, hd⟩
        exact (hwhole g hg).elim (fun hall => hall c hcg) fun hnone => absurd hd (hnone d hdg)

/-- A node of an account that is registered with some channels. -/
def registration (channels : List Channel) : List Op :=
  [.request (.register { channels, contributorRef := some "alice" } (some "key") none
    ⟨"n1", "secret", "2026-07-10T08:00:00Z"⟩)]

theorem saved_unchanged_frequencyVoltage : ∃ vm,
    let s := (App.start (some "key") 6000).after .ascii (registration [.frequencyHz, .voltageV])
    node s (some "key") "alice" true "n1" = .view vm ∧
    let (s', told) := updateNode .ascii s (some "key") "alice" true "n1"
      { vm with locTier := .anon, region := none, postcode := none }
    (∀ text, told = .error text → s' = s) ∧
    ∃ before after, s.db.getNode "n1" = some before ∧ s'.db.getNode "n1" = some after ∧
      (∀ c ∈ before.channels, c ∈ after.channels) ∧
      (∀ c ∈ after.channels, c ∈ before.channels ∨ c = .frequencyHz ∨
        ∃ g ∈ consentGroups, c ∈ g.2 ∧ ∃ d ∈ g.2, d ∈ before.channels) ∧
      (consentGroups.Saturated before.channels →
        ∀ c ∈ after.channels, c ∈ before.channels ∨ c = .frequencyHz) := by
  refine ⟨_, rfl, ?_⟩
  exact saved_unchanged .ascii (some "key") 6000 (registration [.frequencyHz, .voltageV])
    (some "key") "alice" "n1" true _ .anon none none rfl

/-- A node that shares voltage alone shares frequency once its settings are saved. -/
theorem frequency_added :
    ¬ ∀ (rt : Runtime) (internalKey : Option String) (rowsPerMin : ℚ) (ops : List Op)
      (xGwInternal : Option String) (ref id : String) (emailConfirmed : Bool) (vm : ManageNodeVm)
      (tier : LocTier) (region postcode : Option String),
      let s := (App.start internalKey rowsPerMin).after rt ops
      node s xGwInternal ref emailConfirmed id = .view vm →
      let s' := (updateNode rt s xGwInternal ref emailConfirmed id
        { vm with locTier := tier, region, postcode }).1
      ∀ before after, s.db.getNode id = some before → s'.db.getNode id = some after →
        ∀ c, c ∈ after.channels ↔ c ∈ before.channels := by
  intro h
  have hsame := h .ascii (some "key") 6000 (registration [.voltageV]) (some "key") "alice" "n1" true _
    .anon none none rfl _ _ rfl rfl .frequencyHz
  revert hsame
  decide +kernel

end Dashboard

end GridWitness.Portal
