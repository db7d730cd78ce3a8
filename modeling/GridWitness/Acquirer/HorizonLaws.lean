import GridWitness.Acquirer.RunLaws
import GridWitness.Library.Trace

namespace GridWitness.Acquirer

open Library Server

section Staged

variable (host : Host) (kind : Kind)

/-- A staged row whose own timestamp parses, with its key. -/
def Keyed (r : Row) (k : Key) : Prop :=
  ownTime host (r.get (tsColumn kind)) = some k.1 ∧ r.get "node_id" ≠ .null ∧
    (keyColumns kind).map r.get = k.2

/-- A row of a list has a key under the one layout the list is read in. -/
def ReadAs (rows : List Row) (k : Key) : Prop :=
  ∃ r ∈ rows, readTime host (layoutOf host (rows.map (·.get (tsColumn kind))))
      (r.get (tsColumn kind)) = some k.1 ∧
    r.get "node_id" ≠ .null ∧ (keyColumns kind).map r.get = k.2

end Staged

/-- Runs over one tree, all files readable, one for each cutoff. -/
def runs (host : Host) (tree : StagingTree) (cutoffs : List Instant) : Landing :=
  cutoffs.foldl (fun a c => (run host (fun _ => true) (some c) tree a).1) {}

def Staged (host : Host) (tree : StagingTree) (kind : Kind) : List Row :=
  readStaging host tree kind none

/-- Every staged row at or before a cutoff has its key in the lake. -/
def Complete (host : Host) (tree : StagingTree) (lake : Lake) (cutoff : Instant) : Prop :=
  ∀ kind, ∀ r ∈ Staged host tree kind, ∀ k, Keyed host kind r k → k.1 ≤ cutoff →
    Landed lake kind k

variable {host : Host} {tree : StagingTree}

/-- The first run covers the whole tree, so the later ones read nothing. -/
theorem runs_landed (c₀ : Instant) (cs : List Instant) (kind : Kind) (k : Key) :
    Landed (runs host tree (c₀ :: cs)).lake kind k ↔
      ReadAs host kind (Staged host tree kind) k ∧ k.1 ≤ c₀ := by
  let Done : Landing → Prop := fun a =>
    (∀ kind, a.state kind = latestHour tree kind) ∧
    ∀ kind k, Landed a.lake kind k ↔ ReadAs host kind (Staged host tree kind) k ∧ k.1 ≤ c₀
  have first : Done (run host (fun _ => true) (some c₀) tree {}).1 := by
    refine ⟨fun kind => by rw [run_state]; simp, fun kind k => ?_⟩
    rw [run_landed fun _ => rfl, hasKey_clampHorizon, hasKey_frame]
    simp [Landed, ReadAs, Staged]
  have later : ∀ a c, Done a → Done (run host (fun _ => true) (some c) tree a).1 := by
    rintro a c ⟨hstate, hlake⟩
    refine ⟨fun kind => by rw [run_state, hstate, Option.or_self], fun kind k => ?_⟩
    rw [run_landed fun _ => rfl, hstate, readStaging_latestHour, hasKey_clampHorizon, hasKey_frame]
    simp [hlake]
  have hdone : Done (runs host tree (c₀ :: cs)) := Trace.foldl_invariant (I := Done) later first cs
  exact hdone.2 kind k

/-- The horizon clamp loses nothing, over every sequence of cutoffs, exactly when every staged
row that some cutoff lets through is at or before the first one, and the whole tree read in one
layout has its key. -/
theorem clamp_complete_iff (host : Host) (tree : StagingTree) (c₀ : Instant) (cs : List Instant) :
    (∀ before c, before ++ [c] <+: c₀ :: cs →
      Complete host tree (runs host tree (before ++ [c])).lake c) ↔
    ∀ kind, ∀ r ∈ Staged host tree kind, ∀ k, Keyed host kind r k → (∃ c ∈ c₀ :: cs, k.1 ≤ c) →
      k.1 ≤ c₀ ∧ ReadAs host kind (Staged host tree kind) k := by
  have head : ∀ before c, before ++ [c] <+: c₀ :: cs → ∃ xs, before ++ [c] = c₀ :: xs := by
    intro before c hprefix
    cases before with
    | nil => exact ⟨[], by simpa using hprefix⟩
    | cons b before => exact ⟨before ++ [c], by simpa using (List.cons_prefix_cons.mp hprefix).1⟩
  constructor
  · intro h kind r hr k hk ⟨c, hc, hle⟩
    obtain ⟨before, rest, hsplit⟩ := List.append_of_mem hc
    have hprefix : before ++ [c] <+: c₀ :: cs := ⟨rest, by simp [hsplit]⟩
    obtain ⟨xs, hxs⟩ := head before c hprefix
    have hlanded := h before c hprefix kind r hr k hk hle
    rw [hxs, runs_landed] at hlanded
    exact ⟨hlanded.2, hlanded.1⟩
  · intro h before c hprefix kind r hr k hk hle
    obtain ⟨xs, hxs⟩ := head before c hprefix
    have hc : c ∈ c₀ :: cs := hprefix.subset (List.mem_append_right _ (List.mem_singleton_self c))
    obtain ⟨hfirst, hread⟩ := h kind r hr k hk ⟨c, hc, hle⟩
    rw [hxs, runs_landed]
    exact ⟨hread, hfirst⟩

def reading (ts : String) : Row :=
  [("node_id", .text "n1"), ("ts_utc", .text ts), ("phase", .text "1p"),
    ("frequency_hz", .num (.fin 50))]

/-- One hour file with the row of a node at nine o'clock. -/
def nineOClock : StagingTree :=
  (StagingWriter.append .ascii .electrical electricalCsvColumns "ts_utc" none ∅
    [reading "2026-07-10T09:00:00Z"]).1

def oClock (hour : Nat) : Instant := instantOf ⟨2026, 7, 10, hour, 0, 0, 0⟩

/-- The row is newer than the cutoff of the first run, and the second run never reads it again. -/
theorem clamped_row_lost :
    ¬ ∀ (host : Host) (tree : StagingTree) (c₀ : Instant) (cs : List Instant),
      (c₀ :: cs).Pairwise (· ≤ ·) → ∀ before c, before ++ [c] <+: c₀ :: cs →
        Complete host tree (runs host tree (before ++ [c])).lake c := by
  intro h
  have hmono : [oClock 8, oClock 10].Pairwise (· ≤ ·) := by decide +kernel
  have hstaged : ∃ r ∈ Staged .july nineOClock .electrical,
      ownTime .july (r.get "ts_utc") = some (oClock 9) ∧ r.get "node_id" ≠ .null := by
    decide +kernel
  have hpassed : oClock 9 ≤ oClock 10 := by decide +kernel
  obtain ⟨r, hr, htime, hnode⟩ := hstaged
  have hlanded := h .july nineOClock (oClock 8) [oClock 10] hmono [oClock 8] (oClock 10)
    (List.prefix_refl _) .electrical r hr (oClock 9, _) ⟨htime, hnode, rfl⟩ hpassed
  have hlate : ¬ oClock 9 ≤ oClock 8 := by decide +kernel
  exact hlate ((runs_landed (oClock 8) [oClock 10] _ _).mp hlanded).2

end GridWitness.Acquirer
