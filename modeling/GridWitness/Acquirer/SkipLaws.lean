import GridWitness.Acquirer.HorizonLaws

namespace GridWitness.Acquirer

open Library Server

/-- Runs over one tree without a horizon, one for each state of the files of the lake. -/
def unclamped (host : Host) (tree : StagingTree) (a : Landing)
    (readables : List (Partition → Bool)) : Landing :=
  readables.foldl (fun a readable => (run host readable none tree a).1) a

/-- A file of the lake that a run cannot read, and skips. -/
def Skipped (lake : Lake) (readable : Partition → Bool) (p : Partition) : Prop :=
  p ∈ lake ∧ readable p = false

variable {host : Host} {tree : StagingTree} {readable : Partition → Bool} {kind : Kind} {k : Key}

theorem skipped_iff {lake : Lake} {p : Partition} : Skipped lake readable p ↔ ¬ Open readable lake p := by
  rw [Skipped, Open, not_or, AList.lookup_eq_none, not_not, Bool.not_eq_true]

/-- Past a cursor that a run has moved there is nothing left to read. -/
theorem readStaging_moved (since : Option String) :
    readStaging host tree kind ((latestHour tree kind).or since) = [] := by
  cases hlatest : latestHour tree kind with
  | some h =>
    rw [Option.or, ← hlatest]
    exact readStaging_latestHour host
  | none =>
    apply List.eq_nil_iff_forall_not_mem.mpr
    intro r hr
    obtain ⟨p, hp, hkind, -⟩ := mem_readStaging.mp hr
    have hcovered := covered_latestHour (mem_hourFiles.mpr ⟨hp, hkind⟩)
    rw [hlatest] at hcovered
    cases hcovered

/-- What the first run does not land over an unchanged tree, no later one lands. -/
theorem unclamped_landed (a : Landing) (later : List (Partition → Bool)) :
    Landed (unclamped host tree a (readable :: later)).lake kind k ↔
      Landed (run host readable none tree a).1.lake kind k := by
  let Done : Landing → Prop := fun b =>
    (∀ kind, readStaging host tree kind (b.state kind) = []) ∧
    ∀ kind k, Landed b.lake kind k ↔ Landed (run host readable none tree a).1.lake kind k
  have first : Done (run host readable none tree a).1 :=
    ⟨fun kind => by rw [run_state, readStaging_moved], fun _ _ => Iff.rfl⟩
  have step : ∀ b readable, Done b → Done (run host readable none tree b).1 := by
    rintro b readable ⟨hread, hlake⟩
    refine ⟨fun kind => by rw [run_state, readStaging_moved], fun kind k => ?_⟩
    rw [run_lands, hread, hasKey_clampHorizon, hasKey_frame]
    simp [hlake]
  exact (Trace.foldl_invariant (I := Done) step first later).2 kind k

/-- The rows of the files a run skips are in the lake after any later runs exactly when they were
there before. -/
theorem skipped_landed_iff (host : Host) (tree : StagingTree) (a : Landing)
    (readable : Partition → Bool) (later : List (Partition → Bool)) :
    (∀ kind, ∀ r ∈ Staged host tree kind, ∀ k, Keyed host kind r k →
      Skipped a.lake readable (kind, host.week k.1) →
      Landed (unclamped host tree a (readable :: later)).lake kind k) ↔
    ∀ kind, ∀ r ∈ Staged host tree kind, ∀ k, Keyed host kind r k →
      Skipped a.lake readable (kind, host.week k.1) → Landed a.lake kind k := by
  refine forall₂_congr fun kind r => forall₄_congr fun _ k _ hskipped => ?_
  rw [unclamped_landed, run_lands, or_iff_left]
  exact fun h => skipped_iff.mp hskipped h.1

/-- A lake with one file of the week, which holds a row of eight o'clock. -/
def eightLake : Lake :=
  Table.replaceRow ∅ (.electrical, 2026, 28)
    [⟨oClock 8, [("node_id", .text "n1"), ("phase", .text "1p")]⟩]

/-- The file was unreadable in the first run, and the second does not come back to the row. -/
theorem skipped_row_lost :
    ¬ ∀ (host : Host) (tree : StagingTree) (a : Landing) (readable : Partition → Bool)
      (later : List (Partition → Bool)) (last : Partition → Bool),
      (∀ p, Skipped a.lake readable p → last p = true) →
      ∀ kind, ∀ r ∈ Staged host tree kind, ∀ k, Keyed host kind r k →
        Skipped a.lake readable (kind, host.week k.1) →
        Landed (unclamped host tree a (readable :: (later ++ [last]))).lake kind k := by
  intro h
  have hstaged : ∃ r ∈ Staged .july nineOClock .electrical,
      ownTime .july (r.get "ts_utc") = some (oClock 9) ∧ r.get "node_id" ≠ .null := by
    decide +kernel
  obtain ⟨r, hr, htime, hnode⟩ := hstaged
  have hskipped : Skipped eightLake (fun _ => false) (.electrical, 2026, 28) := by
    refine ⟨?_, rfl⟩
    rw [← AList.lookup_isSome, eightLake, Table.lookup_replaceRow, if_pos rfl]
    rfl
  have hlanded := h .july nineOClock ⟨eightLake, fun _ => none⟩ (fun _ => false) [] (fun _ => true)
    (fun _ _ => rfl) .electrical r hr (oClock 9, _) ⟨htime, hnode, rfl⟩ hskipped
  rw [List.nil_append, unclamped_landed, run_lands, or_iff_left fun h =>
    skipped_iff.mp hskipped h.1] at hlanded
  obtain ⟨w, rows, hrows, row, hrow, hkey⟩ := hlanded
  rw [eightLake, Table.lookup_replaceRow] at hrows
  split at hrows
  · cases hrows
    rw [List.mem_singleton.mp hrow] at hkey
    have hlate : oClock 8 ≠ oClock 9 := by decide +kernel
    exact hlate (congrArg Prod.fst hkey)
  · cases hrows

end GridWitness.Acquirer
