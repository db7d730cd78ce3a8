import GridWitness.Acquirer.RerunLaws

namespace GridWitness.Acquirer

open Library Server Keyed

/-- A partition file a run replaces, with the rows it lands there. -/
structure Replacement where
  kind : Kind
  week : Nat × Nat
  payload : List FrameRow

def Replacement.apply (readable : Partition → Bool) (lake : Lake) (r : Replacement) : Lake :=
  (writePartition r.kind readable lake r.week r.payload).1

section Killed

variable (host : Host) (cutoff : Option Instant) (tree : StagingTree) (state : State)

/-- The rows a run offers to the lake. -/
def offered (kind : Kind) : List FrameRow :=
  clampHorizon cutoff (frame host kind (readStaging host tree kind (state kind)))

/-- The files a run replaces, one after another. -/
def replacements : List Replacement :=
  [Kind.electrical, .weather].flatMap fun kind =>
    (weeks host (offered host cutoff tree state kind)).map fun week =>
      ⟨kind, week, (offered host cutoff tree state kind).filter (host.week ·.ts = week)⟩

/-- A run that is killed after it has replaced some files; a file is replaced whole. -/
structure Kill where
  readable : Partition → Bool
  cutoff : Option Instant
  files : Nat

/-- What a killed run leaves: the files it replaced, and the saved cursor as it was. -/
def Kill.leaves (a : Landing) (kill : Kill) : Landing :=
  { a with
    lake := ((replacements host kill.cutoff tree a.state).take kill.files).foldl
      (Replacement.apply kill.readable) a.lake }

end Killed

variable {host : Host} {cutoff : Option Instant} {tree : StagingTree} {kind : Kind}

theorem writeDataset_replacements (readable : Partition → Bool) (lake : Lake) (df : List FrameRow) :
    (writeDataset host kind readable lake df).1 =
      ((weeks host df).map fun week =>
        (⟨kind, week, df.filter (host.week ·.ts = week)⟩ : Replacement)).foldl
          (Replacement.apply readable) lake := by
  have hfold : ∀ (ws : List (Nat × Nat)) (acc : Lake × Nat),
      (ws.foldl (writeWeek host kind readable df) acc).1 =
        (ws.map fun week => (⟨kind, week, df.filter (host.week ·.ts = week)⟩ : Replacement)).foldl
          (Replacement.apply readable) acc.1 := by
    intro ws
    induction ws with
    | nil => exact fun acc => rfl
    | cons w ws ih => exact fun acc => ih _
  exact hfold (weeks host df) (lake, 0)

/-- A run that is not killed replaces all its files. -/
theorem run_replacements (readable : Partition → Bool) (a : Landing) :
    (run host readable cutoff tree a).1.lake =
      (replacements host cutoff tree a.state).foldl (Replacement.apply readable) a.lake := by
  have hweather : (a.state.set .electrical (latestHour tree .electrical)) .weather = a.state .weather :=
    if_neg (by decide)
  simp only [run, List.foldl_cons, List.foldl_nil, cover, hweather, writeDataset_replacements, replacements,
    List.flatMap_cons, List.flatMap_nil, List.append_nil, List.foldl_append, offered]

section Overlay

variable {payload part : List FrameRow} {file : Option (List FrameRow)} {k : Key}

/-- The row of a key as a merge finds it in a file. -/
def oldRow (kind : Kind) (file : Option (List FrameRow)) (k : Key) : Option FrameRow :=
  file.bind fun rows => rowAt (·.key kind) (keepLast kind rows) k

/-- The row of a key after a merge. -/
def overlay (kind : Kind) (new old : Option FrameRow) : Option FrameRow :=
  new.elim (old.map (restrict kind)) fun n => some (old.elim n (fill n))

theorem rowAt_perm {rows rows' : List FrameRow} (h : UniqueKeys (·.key kind) rows) (hp : rows.Perm rows') :
    rowAt (·.key kind) rows' k = rowAt (·.key kind) rows k := by
  cases hrow : rowAt (·.key kind) rows k with
  | none => exact rowAt_eq_none.mpr fun r hr => rowAt_eq_none.mp hrow r (hp.mem_iff.mpr hr)
  | some r =>
    obtain ⟨hr, hkey⟩ := mem_of_rowAt hrow
    exact (h.perm hp).rowAt.mpr ⟨hp.mem_iff.mp hr, hkey⟩

/-- A landed file has unique keys, and the rows of the merge. -/
theorem landed_rows (file : Option (List FrameRow)) (hunique : UniqueKeys (·.key kind) payload) :
    UniqueKeys (·.key kind) (landed kind true payload file) ∧
      ∀ k, rowAt (·.key kind) (landed kind true payload file) k =
        overlay kind (rowAt (·.key kind) payload k) (oldRow kind file k) := by
  cases file with
  | none =>
    refine ⟨uniqueKeys_sortByKey.mpr hunique, fun k => ?_⟩
    rw [landed, rowAt_perm hunique (sortByKey_perm kind payload).symm]
    simp only [oldRow, Option.bind_none, overlay]
    cases rowAt (·.key kind) payload k <;> rfl
  | some prev =>
    have hmerge := merge_unique kind payload prev
    refine ⟨uniqueKeys_sortByKey.mpr hmerge, fun k => ?_⟩
    have hlast : keepLast kind payload = payload := by rw [keepLast_eq, hunique.keepLast]
    have hprev : UniqueKeys (·.key kind) (keepLast kind prev) := by
      rw [keepLast_eq]
      exact keepLast_unique prev
    rw [landed, if_pos rfl, rowAt_perm hmerge (sortByKey_perm kind _).symm, merge, hlast,
      rowAt_combineFirst hunique hprev]
    rfl

/-- A file that cannot be read is left as it is. -/
theorem landed_cases (kind : Kind) (readable : Bool) (payload : List FrameRow)
    (file : Option (List FrameRow)) :
    landed kind readable payload file = landed kind true payload file ∨
      some (landed kind readable payload file) = file := by
  cases file with
  | none => exact Or.inl rfl
  | some prev =>
    cases readable with
    | true => exact Or.inl rfl
    | false => exact Or.inr rfl

theorem oldRow_of_unique {rows : List FrameRow} (h : UniqueKeys (·.key kind) rows) :
    oldRow kind (some rows) k = rowAt (·.key kind) rows k := by
  rw [oldRow, Option.bind_some, keepLast_eq, h.keepLast]

/-- A row is filled alike from two rows that agree where it is null. -/
theorem fill_congr {n o o' : FrameRow} (h : Shaped kind n)
    (hsame : ∀ c ∈ columns kind, n.values.get c = .null → o.values.get c = o'.values.get c) :
    fill n o = fill n o' := by
  simp only [fill, FrameRow.mk.injEq, true_and]
  simp only [Shaped] at h
  rw [h, List.map_map, List.map_map]
  refine List.map_congr_left fun c hc => ?_
  simp only [Function.comp_apply]
  split
  · next hnull => rw [hsame c hc hnull]
  · rfl

theorem fill_fill {n o : FrameRow} (h : Shaped kind n) : fill n (fill n o) = fill n o :=
  fill_congr h fun c hc hnull => by rw [get_fill h hc, if_pos hnull]

theorem fill_restrict {n o : FrameRow} (h : Shaped kind n) : fill n (restrict kind o) = fill n o :=
  fill_congr h fun _ hc _ => get_restrict hc

theorem restrict_restrict (o : FrameRow) : restrict kind (restrict kind o) = restrict kind o := by
  have hsame : ∀ c ∈ columns kind, (restrict kind o).values.get c = o.values.get c := fun c hc => get_restrict hc
  rw [restrict, restrict, FrameRow.mk.injEq]
  exact ⟨rfl, List.map_congr_left fun c hc => by rw [← hsame c hc, restrict]⟩

/-- A merge over what a merge of a part left is the merge over what was there before. -/
theorem overlay_again (hunique : UniqueKeys (·.key kind) payload) (hshape : ∀ r ∈ payload, Shaped kind r)
    (hpart : part.Sublist payload) (old : Option FrameRow) :
    overlay kind (rowAt (·.key kind) payload k) (overlay kind (rowAt (·.key kind) part k) old) =
      overlay kind (rowAt (·.key kind) payload k) old := by
  cases hnew : rowAt (·.key kind) part k with
  | some n =>
    obtain ⟨hn, hkey⟩ := mem_of_rowAt hnew
    rw [hunique.rowAt.mpr ⟨hpart.subset hn, hkey⟩]
    have hn := hshape n (hpart.subset hn)
    cases old with
    | none => exact congrArg some (fill_self hn)
    | some o => exact congrArg some (fill_fill hn)
  | none =>
    cases hall : rowAt (·.key kind) payload k with
    | none =>
      cases old with
      | none => rfl
      | some o => exact congrArg some (restrict_restrict o)
    | some n =>
      cases old with
      | none => rfl
      | some o => exact congrArg some (fill_restrict (hshape n (mem_of_rowAt hall).1))

end Overlay

/-- The rows of a week, as a run lands them. -/
def Replacement.Within (host : Host) (df : Kind → List FrameRow) (r : Replacement) : Prop :=
  r.week ∈ weeks host (df r.kind) ∧ r.payload.Sublist ((df r.kind).filter (host.week ·.ts = r.week))

/-- Two lakes that come out alike once all the rows of a run are landed. -/
structure Pending (host : Host) (df : Kind → List FrameRow) (lake lake' : Lake) : Prop where
  untouched : ∀ p, p.2 ∉ weeks host (df p.1) → lake'.lookup p = lake.lookup p
  rows : ∀ p k,
    let payload := (df p.1).filter (host.week ·.ts = p.2)
    overlay p.1 (rowAt (·.key p.1) payload k) (oldRow p.1 (lake'.lookup p) k) =
      overlay p.1 (rowAt (·.key p.1) payload k) (oldRow p.1 (lake.lookup p) k)

section Pending

variable {df : Kind → List FrameRow} {lake lake' : Lake} {readable : Partition → Bool}

theorem Pending.refl (host : Host) (df : Kind → List FrameRow) (lake : Lake) : Pending host df lake lake :=
  ⟨fun _ _ => rfl, fun _ _ => rfl⟩

/-- Replacing one more file, in part or whole, keeps what the run will come to. -/
theorem Pending.apply (h : Pending host df lake lake')
    (hunique : ∀ kind, UniqueKeys (·.key kind) (df kind)) (hshape : ∀ kind, ∀ r ∈ df kind, Shaped kind r)
    {r : Replacement} (hr : r.Within host df) : Pending host df lake (r.apply readable lake') := by
  obtain ⟨kind, week, part⟩ := r
  obtain ⟨hweek, hpart⟩ := hr
  dsimp only at hweek hpart
  have hlookup : ∀ p, (Replacement.apply readable lake' ⟨kind, week, part⟩).lookup p =
      if p = (kind, week) then some (landed kind (readable p) part (lake'.lookup p)) else lake'.lookup p :=
    fun p => lookup_writePartition week part p
  have hpayload : UniqueKeys (·.key kind) ((df kind).filter (host.week ·.ts = week)) :=
    (hunique kind).sublist List.filter_sublist
  refine ⟨fun p hp => ?_, fun p k => ?_⟩
  · rw [hlookup, if_neg (by rintro rfl; exact hp hweek)]
    exact h.untouched p hp
  · rw [hlookup]
    split
    · next hp =>
      subst hp
      refine Eq.trans ?_ (h.rows (kind, week) k)
      rcases landed_cases kind (readable (kind, week)) part (lake'.lookup (kind, week)) with hread | hskip
      · obtain ⟨hfile, hrows⟩ := landed_rows (lake'.lookup (kind, week)) (hpayload.sublist hpart)
        dsimp only
        rw [hread, oldRow_of_unique hfile, hrows]
        exact overlay_again hpayload (fun r hr => hshape kind r (List.mem_filter.mp hr).1) hpart _
      · dsimp only
        rw [hskip]
    · exact h.rows p k

theorem Pending.fold {lake lake' : Lake} (h : Pending host df lake lake')
    (hunique : ∀ kind, UniqueKeys (·.key kind) (df kind)) (hshape : ∀ kind, ∀ r ∈ df kind, Shaped kind r)
    {rs : List Replacement} (hrs : ∀ r ∈ rs, r.Within host df) :
    Pending host df lake (rs.foldl (Replacement.apply readable) lake') := by
  induction rs generalizing lake' with
  | nil => exact h
  | cons r rs ih =>
    obtain ⟨hr, hrest⟩ := List.forall_mem_cons.mp hrs
    exact ih (h.apply hunique hshape hr) hrest

end Pending

/-- No later than a cutoff; a run without one lands everything. -/
def NoLater : Option Instant → Option Instant → Prop
  | _, none => True
  | none, some _ => False
  | some c, some d => c ≤ d

theorem clampHorizon_noLater {c d : Option Instant} (h : NoLater c d) (df : List FrameRow) :
    (clampHorizon c df).Sublist (clampHorizon d df) := by
  cases d with
  | none => exact clampHorizon_sublist c df
  | some d =>
    cases c with
    | none => exact absurd h id
    | some c =>
      refine List.monotone_filter_right df fun r hr => ?_
      exact decide_eq_true ((of_decide_eq_true hr).trans h)

/-- The files of an earlier run are files of a later one. -/
theorem replacements_within {c : Option Instant} (h : NoLater c cutoff) (tree : StagingTree) (state : State) :
    ∀ r ∈ replacements host c tree state, r.Within host (offered host cutoff tree state) := by
  intro r hr
  obtain ⟨kind, -, hr⟩ := List.mem_flatMap.mp hr
  obtain ⟨week, hweek, rfl⟩ := List.mem_map.mp hr
  have hsub := clampHorizon_noLater h (frame host kind (readStaging host tree kind (state kind)))
  obtain ⟨row, hrow, hsame⟩ := mem_weeks.mp hweek
  exact ⟨mem_weeks.mpr ⟨row, hsub.subset hrow, hsame⟩, hsub.filter _⟩

theorem lookup_run_offered (cutoff : Option Instant) (tree : StagingTree) (a : Landing) (p : Partition) :
    (run host (fun _ => true) cutoff tree a).1.lake.lookup p =
      if p.2 ∈ weeks host (offered host cutoff tree a.state p.1) then
        some (landed p.1 true ((offered host cutoff tree a.state p.1).filter (host.week ·.ts = p.2))
          (a.lake.lookup p))
      else a.lake.lookup p := lookup_run a p

end GridWitness.Acquirer
