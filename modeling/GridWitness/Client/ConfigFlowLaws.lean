import GridWitness.Client.ConfigFlow
import GridWitness.Library.Trace

namespace GridWitness.Client

open Library

theorem mem_keep {mapping : Mapping} {channels : List String} {item : String × List MappingEntry} :
    item ∈ mapping.keep channels ↔ item ∈ mapping ∧ item.1 ∈ channels := by
  simp [Mapping.keep]

/-- A channel is proposed once, and with an entity. -/
theorem proposeMapping_spec (discovery : Discovery) :
    (Bucket.keys (proposeMapping discovery)).Nodup ∧
      ∀ item ∈ proposeMapping discovery, item.2 ≠ [] := by
  let I : Mapping → Prop := fun mapping =>
    (Bucket.keys mapping).Nodup ∧ ∀ item ∈ mapping, item.2 ≠ []
  have keep : ∀ mapping (cand : Candidate), I mapping →
      I (if cand.channel = "frequency_hz" ∧ "frequency_hz" ∈ Bucket.keys mapping then mapping
        else Bucket.add cand.channel ⟨cand.entityId, some cand.phase⟩ mapping) := by
    rintro mapping cand ⟨hkeys, hentities⟩
    split
    · exact ⟨hkeys, hentities⟩
    · refine ⟨?_, Bucket.add_ne_nil hentities⟩
      rw [Bucket.keys_add]
      split
      · exact hkeys
      · next hnew => exact List.nodup_append.mpr ⟨hkeys, List.nodup_singleton _, by grind⟩
  exact Trace.foldl_invariant (I := I) keep (s := []) ⟨List.nodup_nil, by simp⟩ _

/-- What is captured is what is consented: the mapping holds what was proposed for the channels. -/
def Mapped (discovery : Discovery) (entry : ConfigEntry) : Prop :=
  ∀ item, item ∈ entry.current.mapping ↔
    item ∈ proposeMapping discovery ∧ item.1 ∈ entry.current.channels

/-- An edit the server accepts turns on no channel with a proposal that was off. -/
def Narrows (discovery : Discovery) (entry : ConfigEntry) (edit : SharingEdit) : Prop :=
  (edit.updateConsent entry.current.nodeId entry.current.token edit.input.payload).isSome →
    ∀ channel ∈ edit.input.channels, channel ∈ Bucket.keys (proposeMapping discovery) →
      channel ∈ entry.current.channels

theorem registered_mapped {register : ConsentPayload → Option Registered} {configured : List String}
    {serverUrl : String} {allowInsecure : Bool} {discovery : Discovery} {input : ConsentInput}
    {entry : ConfigEntry}
    (h : registerAndCreate register configured serverUrl allowInsecure discovery input = some entry) :
    Mapped discovery entry := by
  simp only [registerAndCreate] at h
  split at h
  · cases h
  · split at h
    · cases h
    · cases h
      exact fun item => mem_keep

theorem edit_mapped {discovery : Discovery} {entry : ConfigEntry} (edit : SharingEdit)
    (h : Mapped discovery entry) :
    Mapped discovery (entry.edit edit) ↔ Narrows discovery entry edit := by
  simp only [ConfigEntry.edit, ConfigEntry.apply, Narrows]
  cases edit.updateConsent entry.current.nodeId entry.current.token edit.input.payload with
  | none => simpa using h
  | some locRef =>
    have hmapped : ∀ o : EntryOptions, Mapped discovery ⟨entry.data, some o⟩ ↔
        ∀ item, item ∈ o.mapping ↔ item ∈ proposeMapping discovery ∧ item.1 ∈ o.channels :=
      fun _ => Iff.rfl
    simp only [Option.map_some, Option.isSome_some, forall_const, hmapped, mem_keep]
    constructor
    · intro hitems channel hchannel hkey
      obtain ⟨item, hitem, rfl⟩ := List.mem_map.mp hkey
      exact ((h item).mp ((hitems item).mpr ⟨hitem, hchannel⟩).1).2
    · intro hnarrow item
      refine and_congr_left fun hchannel => (h item).trans ?_
      exact and_iff_left_of_imp fun hitem =>
        hnarrow item.1 hchannel (List.mem_map_of_mem hitem)

/-- Nothing else is ever captured than what was proposed for a channel that is consented. -/
theorem mapped_consented {discovery : Discovery} {entry : ConfigEntry} (h : Mapped discovery entry)
    (edits : List SharingEdit) :
    ∀ item ∈ (edits.foldl ConfigEntry.edit entry).current.mapping, item ∈ proposeMapping discovery ∧
      item.1 ∈ (edits.foldl ConfigEntry.edit entry).current.channels := by
  let I : ConfigEntry → Prop := fun e =>
    ∀ item ∈ e.current.mapping, item ∈ proposeMapping discovery ∧ item.1 ∈ e.current.channels
  refine Trace.foldl_invariant (I := I) (fun e edit he => ?_) (fun item hitem => (h item).mp hitem) edits
  simp only [I, ConfigEntry.edit, ConfigEntry.apply]
  cases edit.updateConsent e.current.nodeId e.current.token edit.input.payload with
  | none => exact he
  | some locRef =>
    intro item hitem
    obtain ⟨hin, hchannel⟩ := mem_keep.mp hitem
    exact ⟨(he item hin).1, hchannel⟩

/-- So an entity is read for consented channels only. -/
theorem index_consented {discovery : Discovery} {entry : ConfigEntry} (h : Mapped discovery entry)
    (edits : List SharingEdit) (float : String → Option Server.PyFloat) (entityId : String) :
    let current := (edits.foldl ConfigEntry.edit entry).current
    ∀ x ∈ (Sensors.mk current.mapping float).index entityId, x.1 ∈ current.channels := by
  intro current x hx
  obtain ⟨⟨channel, entries⟩, hitem, hx⟩ := List.mem_flatMap.mp hx
  obtain ⟨e, -, heq⟩ := List.mem_filterMap.mp hx
  split at heq
  · cases heq
    exact (mapped_consented h edits _ hitem).2
  · cases heq

/-- From any set-up entry and along any edits: what is captured stays what is consented exactly where
every accepted edit only narrows what is shared, as far as discovery found sensors for it. -/
theorem captured_iff (register : ConsentPayload → Option Registered) (configured : List String)
    (serverUrl : String) (allowInsecure : Bool) (discovery : Discovery) (input : ConsentInput)
    (entry : ConfigEntry)
    (hentry : registerAndCreate register configured serverUrl allowInsecure discovery input = some entry)
    (edits : List SharingEdit) :
    (Mapped discovery entry ∧
        Trace.Along ConfigEntry.edit (fun e edit => Mapped discovery (e.edit edit)) entry edits) ↔
      Trace.Along ConfigEntry.edit (Narrows discovery) entry edits := by
  have hmapped := registered_mapped hentry
  rw [and_iff_right hmapped]
  exact Trace.Along.iff_each (fun _ edit h => edit_mapped edit h) hmapped

/-- A frequency and a voltage sensor. -/
def meter : Discovery :=
  ⟨[("frequency", [⟨"sensor.f", "frequency_hz", "1p"⟩]), ("voltage", [⟨"sensor.v", "voltage_v", "1p"⟩])]⟩

/-- The server registers the node as `n1`, and accepts an edit. -/
def registered : ConsentPayload → Option Registered := fun _ => some ⟨"n1", "secret", none⟩

def ticked (groups : List String) : ConsentInput := ⟨fun g => g ∈ groups, "anon", none, none⟩

def acceptedEdit (groups : List String) : SharingEdit := ⟨ticked groups, fun _ _ _ => some none⟩

theorem captured_iff_voltageOff : ∃ entry,
    registerAndCreate registered [] "http://localhost:8000" false meter (ticked ["frequency", "voltage"]) =
      some entry ∧
    ((Mapped meter entry ∧
        Trace.Along ConfigEntry.edit (fun e edit => Mapped meter (e.edit edit)) entry
          [acceptedEdit ["frequency"]]) ↔
      Trace.Along ConfigEntry.edit (Narrows meter) entry [acceptedEdit ["frequency"]]) := by
  refine ⟨_, rfl, ?_⟩
  exact captured_iff registered [] "http://localhost:8000" false meter (ticked ["frequency", "voltage"])
    _ rfl [acceptedEdit ["frequency"]]

/-- Voltage is turned on after the setup: it is consented, and nothing is captured for it. -/
theorem enabled_not_captured :
    ¬ ∀ (register : ConsentPayload → Option Registered) (configured : List String) (serverUrl : String)
      (allowInsecure : Bool) (discovery : Discovery) (input : ConsentInput) (entry : ConfigEntry),
      registerAndCreate register configured serverUrl allowInsecure discovery input = some entry →
      ∀ edits : List SharingEdit, Mapped discovery entry ∧
        Trace.Along ConfigEntry.edit (fun e edit => Mapped discovery (e.edit edit)) entry edits := by
  intro h
  obtain ⟨-, hafter, -⟩ := h registered [] "http://localhost:8000" false meter (ticked ["frequency"]) _ rfl
    [acceptedEdit ["frequency", "voltage"]]
  have hproposed : ("voltage_v", [⟨"sensor.v", some "1p"⟩]) ∈ proposeMapping meter :=
    List.mem_cons_of_mem _ List.mem_cons_self
  have hkey := List.mem_map_of_mem (f := Prod.fst) ((hafter _).mpr ⟨hproposed, by decide⟩)
  revert hkey
  decide

end GridWitness.Client
