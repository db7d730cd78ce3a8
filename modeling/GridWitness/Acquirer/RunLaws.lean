import Mathlib.Data.String.Basic
import GridWitness.Acquirer.LakeLaws

namespace GridWitness.Acquirer

open Library Server

section Read

variable {tree : StagingTree} {kind : Kind} {p : StagingPath}

theorem mem_hourFiles : p ∈ hourFiles tree kind ↔ p ∈ tree ∧ p.kind = kind := by
  simp [hourFiles, AList.mem_keys]

theorem foldl_newer (ps : List StagingPath) (best : Option String) :
    (∀ h ∈ best, ∃ h' ∈ ps.foldl newer best, h ≤ h') ∧
      ∀ p ∈ ps, ∃ h' ∈ ps.foldl newer best, hourKey p ≤ h' := by
  induction ps generalizing best with
  | nil => exact ⟨fun h hh => ⟨h, hh, le_rfl⟩, nofun⟩
  | cons p ps ih =>
    obtain ⟨hbest, hps⟩ := ih (newer best p)
    have hstep : (∀ h ∈ best, ∃ h' ∈ newer best p, h ≤ h') ∧ ∃ h' ∈ newer best p, hourKey p ≤ h' := by
      simp only [newer]
      split
      · next hlt =>
        refine ⟨fun h hh => ⟨hourKey p, rfl, ?_⟩, hourKey p, rfl, le_rfl⟩
        cases hh
        exact le_of_lt (by simpa using hlt)
      · next hge =>
        refine ⟨fun h hh => ⟨h, hh, le_rfl⟩, ?_⟩
        cases best with
        | none => simp at hge
        | some h =>
          refine ⟨h, rfl, le_of_not_gt fun hlt => hge ?_⟩
          rw [Option.all_some, decide_eq_true_eq]
          exact hlt
    refine ⟨fun h hh => ?_, fun q hq => ?_⟩
    · obtain ⟨h₁, hh₁, hle₁⟩ := hstep.1 h hh
      obtain ⟨h₂, hh₂, hle₂⟩ := hbest h₁ hh₁
      exact ⟨h₂, hh₂, hle₁.trans hle₂⟩
    · rcases List.mem_cons.mp hq with rfl | hq
      · obtain ⟨h₁, hh₁, hle₁⟩ := hstep.2
        obtain ⟨h₂, hh₂, hle₂⟩ := hbest h₁ hh₁
        exact ⟨h₂, hh₂, hle₁.trans hle₂⟩
      · exact hps q hq

/-- Every hour of a tree is covered by its latest one. -/
theorem covered_latestHour (hp : p ∈ hourFiles tree kind) : covered (latestHour tree kind) p := by
  obtain ⟨h, hh, hle⟩ := (foldl_newer (hourFiles tree kind) none).2 p hp
  have hlatest : latestHour tree kind = some h := hh
  simpa [covered, hlatest] using hle

theorem mem_readStaging {host : Host} {since : Option String} {r : Row} :
    r ∈ readStaging host tree kind since ↔
      ∃ p ∈ tree, p.kind = kind ∧ covered since p = false ∧ r ∈ dictRows host (tree.lines p) := by
  simp only [readStaging, List.mem_flatMap, List.mem_filter, mem_hourFiles]
  simp [and_assoc]

theorem readStaging_latestHour (host : Host) :
    readStaging host tree kind (latestHour tree kind) = [] := by
  apply List.eq_nil_iff_forall_not_mem.mpr
  intro r hr
  obtain ⟨p, hp, hkind, hcovered, -⟩ := mem_readStaging.mp hr
  rw [covered_latestHour (mem_hourFiles.mpr ⟨hp, hkind⟩)] at hcovered
  cases hcovered

/-- A row of the writer as the acquirer reads it back: every column as text. -/
def stagedRow (host : Host) (kind : Kind) (r : Row) : Row :=
  dictRow host kind.header (kind.csvLine r)

theorem stagedRow_get {host : Host} {r : Row} {c : String} (hc : c ∈ kind.columns) :
    (stagedRow host kind r).get c = .text (cellText host (r.get c)) := by
  have hnames : kind.header.map (cellText host) = kind.columns := by
    simp only [Kind.header, StagingWriter.header, List.map_map]
    exact List.map_id _
  have hcells : (kind.csvLine r).map (fun c => Cell.text (cellText host c)) =
      kind.columns.map fun c => .text (cellText host (r.get c)) := by
    simp only [Kind.csvLine, StagingWriter.csvLine, List.map_map]
    rfl
  rw [stagedRow, dictRow, hnames, hcells, Row.get_zip_map, if_pos hc]

end Read

section Frame

variable {host : Host} {kind : Kind} {rows : List Row} {k : Key}

theorem hasKey_frame :
    HasKey kind (frame host kind rows) k ↔ ∃ r ∈ rows,
      readTime host (layoutOf host (rows.map (·.get (tsColumn kind)))) (r.get (tsColumn kind)) =
        some k.1 ∧
      r.get "node_id" ≠ .null ∧ (keyColumns kind).map r.get = k.2 := by
  obtain ⟨t, cells⟩ := k
  generalize hlayout : layoutOf host (rows.map (·.get (tsColumn kind))) = layout
  have hrow : ∀ (r : Row), (∃ fr, frameRow host kind layout r = some fr ∧
      fr.key kind = (t, cells)) ↔ readTime host layout (r.get (tsColumn kind)) = some t ∧
        r.get "node_id" ≠ .null ∧ (keyColumns kind).map r.get = cells := by
    intro r
    have hkey : (keyColumns kind).map (Row.get ((columns kind).map fun c =>
        (c, if c ∈ numericColumns kind then toFloat host (r.get c) else r.get c))) =
        (keyColumns kind).map r.get := by
      apply List.map_congr_left
      intro c hc
      have hmem : c ∈ columns kind ∧ c ∉ numericColumns kind := by
        revert c
        cases kind <;> decide
      rw [get_columns, if_pos hmem.1, if_neg hmem.2]
    simp only [frameRow]
    cases readTime host layout (r.get (tsColumn kind)) with
    | none => simp
    | some ts =>
      by_cases hnode : r.get "node_id" = .null
      · simp [hnode]
      · simp [hnode, FrameRow.key, hkey]
  simp only [HasKey, frame, hlayout, List.mem_filterMap]
  constructor
  · rintro ⟨fr, ⟨r, hr, hfr⟩, hkey⟩
    exact ⟨r, hr, (hrow r).mp ⟨fr, hfr, hkey⟩⟩
  · rintro ⟨r, hr, h⟩
    obtain ⟨fr, hfr, hkey⟩ := (hrow r).mpr h
    exact ⟨fr, ⟨r, hr, hfr⟩, hkey⟩

theorem hasKey_clampHorizon {cutoff : Option Instant} {df : List FrameRow} :
    HasKey kind (clampHorizon cutoff df) k ↔ HasKey kind df k ∧ ∀ c ∈ cutoff, k.1 ≤ c := by
  cases cutoff with
  | none => simp [clampHorizon]
  | some c =>
    simp only [clampHorizon, HasKey, List.mem_filter, decide_eq_true_eq, Option.mem_some_iff,
      forall_eq']
    constructor
    · rintro ⟨r, ⟨hr, hle⟩, rfl⟩
      exact ⟨⟨r, hr, rfl⟩, hle⟩
    · rintro ⟨⟨r, hr, rfl⟩, hle⟩
      exact ⟨r, ⟨hr, hle⟩, rfl⟩

end Frame

section Run

variable {host : Host} {readable : Partition → Bool} {cutoff : Option Instant}
  {tree : StagingTree} {kind : Kind} {k : Key}

theorem cover_state (acc : Landing × Nat) (kind' : Kind) :
    (cover host readable cutoff tree acc kind').1.state kind =
      if kind = kind' then (latestHour tree kind).or (acc.1.state kind) else acc.1.state kind := by
  simp only [cover, State.set]
  split
  · next h => rw [h]
  · rfl

/-- A run lands in each file the rows of its week that were read past the cursor. -/
theorem lookup_run (a : Landing) (p : Partition) :
    (run host readable cutoff tree a).1.lake.lookup p =
      let df := clampHorizon cutoff (frame host p.1 (readStaging host tree p.1 (a.state p.1)))
      if p.2 ∈ weeks host df then
        some (landed p.1 (readable p) (df.filter (host.week ·.ts = p.2)) (a.lake.lookup p))
      else a.lake.lookup p := by
  obtain ⟨kind, w⟩ := p
  simp only [run, List.foldl_cons, List.foldl_nil, cover, lookup_writeDataset, State.set]
  cases kind <;> simp

/-- What a run lands: the rows it reads past the cursor, as far as the horizon lets them through and
their files can be written. -/
theorem run_lands (a : Landing) :
    Landed (run host readable cutoff tree a).1.lake kind k ↔ Landed a.lake kind k ∨
      Open readable a.lake (kind, host.week k.1) ∧ HasKey kind
        (clampHorizon cutoff (frame host kind (readStaging host tree kind (a.state kind)))) k := by
  have hlookup : ∀ w, (run host readable cutoff tree a).1.lake.lookup (kind, w) =
      (writeDataset host kind readable a.lake (clampHorizon cutoff
        (frame host kind (readStaging host tree kind (a.state kind))))).1.lookup (kind, w) := by
    intro w
    rw [lookup_run, lookup_writeDataset]
    simp
  simp only [Landed, hlookup]
  rw [← Landed, writeDataset_lands]
  simp [Landed]

theorem run_landed (hr : ∀ p, readable p = true) (a : Landing) :
    Landed (run host readable cutoff tree a).1.lake kind k ↔
      Landed a.lake kind k ∨ HasKey kind
        (clampHorizon cutoff (frame host kind (readStaging host tree kind (a.state kind)))) k := by
  simp [run_lands, Open, hr]

theorem run_state (a : Landing) : (run host readable cutoff tree a).1.state kind =
    (latestHour tree kind).or (a.state kind) := by
  simp only [run, List.foldl_cons, List.foldl_nil, cover_state]
  cases kind <;> simp

end Run

end GridWitness.Acquirer
