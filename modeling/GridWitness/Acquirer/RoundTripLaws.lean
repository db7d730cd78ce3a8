import GridWitness.Acquirer.HorizonLaws
import GridWitness.Acquirer.MergeLaws
import GridWitness.Server.LedgerLaws

namespace GridWitness.Acquirer

open Library Server Keyed

/-- One call of each writer, for rows of any nodes. -/
structure Batch where
  electrical : List (ElectricalRow × Node) := []
  weather : List (WeatherRow × Node) := []

def Batch.rows (b : Batch) : Kind → List Row
  | .electrical => b.electrical.map fun (row, node) => projectElectrical row node
  | .weather => b.weather.map fun (row, node) => projectWeather row node

def stage (rt : Runtime) (w : StagingWriter) (b : Batch) : StagingWriter :=
  (StagingWriter.writeWeather rt none
    (StagingWriter.writeElectrical rt none w (b.rows .electrical)).1 (b.rows .weather)).1

/-- All rows of a kind, batch by batch. -/
def allRows (batches : List Batch) (kind : Kind) : List Row := batches.flatMap (·.rows kind)

/-- What a lake row says of a reading: its instant, its key and its numbers. -/
def FrameRow.reading (kind : Kind) (r : FrameRow) : Instant × List Cell × List Cell :=
  (r.ts, (keyColumns kind).map r.values.get, (numericColumns kind).map r.values.get)

/-- The same of a staged row, whose timestamp is a text. -/
def rowReading (host : Host) (kind : Kind) (r : Row) : Option (Instant × List Cell × List Cell) :=
  (ownTime host (r.get (tsColumn kind))).map fun ts =>
    (ts, (keyColumns kind).map r.get, (numericColumns kind).map r.get)

/-- The key of a staged row, as an instant. -/
def instantKey (host : Host) (kind : Kind) (r : Row) : Option Instant × List Cell :=
  (ownTime host (r.get (tsColumn kind)), (keyColumns kind).map r.get)

/-- All rows of a kind in the lake, file by file. -/
def lakeRows (lake : Lake) (kind : Kind) : List FrameRow :=
  (lake.keys.filter (·.1 = kind)).flatMap fun p => (lake.lookup p).getD []

/-- A number that survives being printed and read again. -/
def Host.Rereads (host : Host) (q : ℚ) : Prop :=
  host.floatRepr (.fin q) ≠ "" ∧ host.floatRepr (.fin q) ≠ "None" ∧
    host.parseFloat (host.floatRepr (.fin q)) = some (.fin q)

/-- A missing or finite number. -/
def finiteCell : Cell → Bool
  | .null => true
  | .num (.fin _) => true
  | _ => false

/-- A row the server can file and pandas can read: a timestamp in the one layout of its kind, and
finite numbers. -/
structure Legible (host : Host) (rt : Runtime) (kind : Kind) (layout : host.Layout) (r : Row) :
    Prop where
  filed : (StagingWriter.path rt kind kind.tsField r).isSome
  time : ∃ text ts, r.get (tsColumn kind) = .text text ∧ text ≠ "" ∧ host.infer text = layout ∧
    host.parse layout text = some ts
  finite : ∀ c ∈ numericColumns kind, finiteCell (r.get c)

section Stage

variable {rt : Runtime} {host : Host}

/-- Rows with distinct keys as instants have distinct keys as texts. -/
theorem rowKey_nodup {xs : List (Kind × Row)}
    (h : ∀ kind, (((xs.filter (·.1 = kind)).map (·.2)).map (instantKey host kind)).Nodup) :
    (xs.map rowKey).Nodup := by
  rw [List.Nodup, List.pairwise_map, List.pairwise_iff_forall_sublist]
  rintro ⟨kind, r⟩ ⟨kind', r'⟩ hsub hkey
  obtain rfl : kind = kind' := rowKey_kind hkey
  have hrows := ((hsub.filter (·.1 = kind)).map (·.2)).map (instantKey host kind)
  rw [List.filter_cons_of_pos (by simp), List.filter_cons_of_pos (by simp)] at hrows
  have hne := (List.nodup_cons.mp ((h kind).sublist hrows)).1
  refine hne (List.mem_singleton.mpr ?_)
  have hcells := List.map_inj_left.mp (show kind.keyFields.map r.get = kind.keyFields.map r'.get
    from hkey)
  have hts : r.get (tsColumn kind) = r'.get (tsColumn kind) :=
    hcells _ (by cases kind <;> decide)
  have hkeys : (keyColumns kind).map r.get = (keyColumns kind).map r'.get := by
    apply List.map_congr_left
    intro c hc
    apply hcells
    revert c
    cases kind <;> decide
  rw [instantKey, instantKey, hts, hkeys]

/-- The rows of the batches, in the order they reach the writer. -/
def offeredRows (batches : List Batch) : List (Kind × Row) :=
  batches.flatMap fun b => (b.rows .electrical).map (.electrical, ·) ++
    (b.rows .weather).map (.weather, ·)

theorem filter_offeredRows (batches : List Batch) (kind : Kind) :
    ((offeredRows batches).filter (·.1 = kind)).map (·.2) = allRows batches kind := by
  induction batches with
  | nil => rfl
  | cons b batches ih =>
    simp only [offeredRows, allRows, List.flatMap_cons, List.filter_append, List.map_append] at ih ⊢
    rw [ih]
    congr 1
    cases kind <;> simp [List.filter_map, Function.comp_def]

theorem stage_exact {batches : List Batch} {xs : List (Kind × Row)} {w : StagingWriter}
    (hw : Exact rt w xs)
    (hfiled : ∀ b ∈ batches, ∀ kind, ∀ r ∈ b.rows kind,
      (StagingWriter.path rt kind kind.tsField r).isSome)
    (hnew : ((xs ++ offeredRows batches).map rowKey).Nodup) :
    Exact rt (batches.foldl (stage rt) w) (xs ++ offeredRows batches) := by
  induction batches generalizing xs w with
  | nil => simpa [offeredRows] using hw
  | cons b batches ih =>
    have hsplit : xs ++ offeredRows (b :: batches) = xs ++ (b.rows .electrical).map (.electrical, ·) ++
        (b.rows .weather).map (.weather, ·) ++ offeredRows batches := by
      simp [offeredRows]
    rw [hsplit] at hnew ⊢
    obtain ⟨hb, hrest⟩ := List.forall_mem_cons.mp hfiled
    have hweatherNew := (List.nodup_append.mp (List.map_append ▸ hnew)).1
    have helecNew := (List.nodup_append.mp (List.map_append ▸ hweatherNew)).1
    have helec := write_exact_new hw (hb .electrical) helecNew
    have hweather := write_exact_new helec (hb .weather) hweatherNew
    exact ih hweather hrest hnew

end Stage

section Read

variable {rt : Runtime} {host : Host} {kind : Kind}

/-- The files read back are the rows staged, in some order. -/
theorem readStaging_perm {tree : StagingTree} {xs : List (Kind × Row)} (h : tree.Files rt xs)
    (hfiled : ∀ x ∈ xs, (stagingPath rt x).isSome) :
    (readStaging host tree kind none).Perm
      (((xs.filter (·.1 = kind)).map (·.2)).map (stagedRow host kind)) := by
  have hpaths : (hourFiles tree kind).Nodup := by
    rw [hourFiles, (List.perm_insertionSort _ _).nodup_iff]
    exact tree.keys_nodup.filter _
  have hread : readStaging host tree kind none =
      (((hourFiles tree kind).flatMap fun p =>
        (xs.filter (·.1 = kind)).filter (stagingPath rt · = some p)).map (·.2)).map
        (stagedRow host kind) := by
    simp only [readStaging, covered, Option.any_none, Bool.not_false, List.filter_true,
      List.map_flatMap]
    apply List.flatMap_congr
    intro p hp
    obtain ⟨hmem, rfl⟩ := mem_hourFiles.mp hp
    have hsame : (xs.filter (·.1 = p.kind)).filter (stagingPath rt · = some p) =
        xs.filter (stagingPath rt · = some p) := by
      rw [List.filter_filter]
      apply List.filter_congr
      intro x _
      by_cases hx : stagingPath rt x = some p
      · simp [hx, StagingWriter.path_kind hx]
      · simp [hx]
    rw [h.lines, fileLines, if_neg ((h.exist p).mp hmem), hsame]
    simp only [dictRows, fileRows, List.map_map]
    rfl
  rw [hread]
  refine (Bucket.flatMap_filter_perm hpaths fun x hx => ?_).map _ |>.map _
  obtain ⟨hx, hkind⟩ := List.mem_filter.mp hx
  obtain ⟨p, hp⟩ := Option.isSome_iff_exists.mp (hfiled x hx)
  have hpkind : p.kind = kind := (StagingWriter.path_kind hp).trans (by simpa using hkind)
  refine ⟨p, mem_hourFiles.mpr ⟨?_, hpkind⟩, hp⟩
  rw [h.exist]
  exact List.ne_nil_of_mem (List.mem_map_of_mem (List.mem_filter.mpr ⟨hx, by simpa using hp⟩))

/-- The text of a timestamp, an id or a phase is read back as it was staged. -/
theorem stagedRow_text {r : Row} {c text : String} (hc : c ∈ kind.columns) (h : r.get c = .text text) :
    (stagedRow host kind r).get c = r.get c := by
  rw [stagedRow_get hc, h]
  rfl

theorem finiteCell_cases {c : Cell} (h : finiteCell c) : c = .null ∨ ∃ q, c = .num (.fin q) := by
  match c with
  | .null => exact Or.inl rfl
  | .num (.fin q) => exact Or.inr ⟨q, rfl⟩

theorem toFloat_stagedRow {r : Row} {c : String} (hc : c ∈ kind.columns) (h : finiteCell (r.get c))
    (hfloat : ∀ q, r.get c = .num (.fin q) → host.Rereads q) :
    toFloat host ((stagedRow host kind r).get c) = r.get c := by
  rw [stagedRow_get hc]
  rcases finiteCell_cases h with h | ⟨q, h⟩
  · rw [h]
    rfl
  · obtain ⟨hblank, hnone, hparse⟩ := hfloat q h
    rw [h, cellText, toFloat, if_neg (by simp [hblank, hnone]), hparse]
    rfl

/-- A legible row of text keys is framed as the reading it was staged with. -/
theorem frameRow_stagedRow {layout : host.Layout} {r : Row} (h : Legible host rt kind layout r)
    (hfloat : ∀ c ∈ numericColumns kind, ∀ q, r.get c = .num (.fin q) → host.Rereads q)
    (hkeyed : ∀ c ∈ keyColumns kind, ∃ text, r.get c = .text text) :
    ∃ fr, frameRow host kind (some layout) (stagedRow host kind r) = some fr ∧
      some (fr.reading kind) = rowReading host kind r := by
  obtain ⟨text, ts, htext, hne, hlayout, hparse⟩ := h.time
  have hcolumns : tsColumn kind ∈ kind.columns ∧ "node_id" ∈ kind.columns ∧
      "node_id" ∈ keyColumns kind := by
    cases kind <;> decide
  have hts : readTime host (some layout) ((stagedRow host kind r).get (tsColumn kind)) = some ts := by
    rw [stagedRow_text hcolumns.1 htext, htext]
    simp [readTime, someText, hne, hparse]
  have hown : ownTime host (r.get (tsColumn kind)) = some ts := by
    rw [htext]
    simp [ownTime, readTime, layoutOf, someText, hne, hlayout, hparse]
  have hnode : (stagedRow host kind r).get "node_id" ≠ .null := by
    rw [stagedRow_get hcolumns.2.1]
    exact Cell.noConfusion
  refine ⟨⟨ts, (columns kind).map fun c =>
    (c, if c ∈ numericColumns kind then toFloat host ((stagedRow host kind r).get c)
      else (stagedRow host kind r).get c)⟩, by simp only [frameRow, hts, if_neg hnode], ?_⟩
  rw [rowReading, hown, Option.map_some, FrameRow.reading]
  refine congrArg some (Prod.ext rfl (Prod.ext ?_ ?_))
  · apply List.map_congr_left
    intro c hc
    have hmem : c ∈ columns kind ∧ c ∉ numericColumns kind ∧ c ∈ kind.columns := by
      revert c
      cases kind <;> decide
    obtain ⟨key, hkey⟩ := hkeyed c hc
    rw [get_columns, if_pos hmem.1, if_neg hmem.2.1, stagedRow_text hmem.2.2 hkey]
  · apply List.map_congr_left
    intro c hc
    have hmem : c ∈ columns kind ∧ c ∈ kind.columns := by
      revert c
      cases kind <;> decide
    rw [get_columns, if_pos hmem.1, if_pos hc]
    exact toFloat_stagedRow hmem.2 (h.finite c hc) (hfloat c hc)

theorem frame_stagedRow {layout : host.Layout} {rows : List Row}
    (h : ∀ r ∈ rows, Legible host rt kind layout r)
    (hfloat : ∀ r ∈ rows, ∀ c ∈ numericColumns kind, ∀ q, r.get c = .num (.fin q) → host.Rereads q)
    (hkeyed : ∀ r ∈ rows, ∀ c ∈ keyColumns kind, ∃ text, r.get c = .text text) :
    ((rows.map (stagedRow host kind)).filterMap (frameRow host kind (some layout))).map
        (fun fr => some (fr.reading kind)) = rows.map (rowReading host kind) := by
  induction rows with
  | nil => rfl
  | cons r rows ih =>
    obtain ⟨hr, hrest⟩ := List.forall_mem_cons.mp h
    obtain ⟨hfr, hfrest⟩ := List.forall_mem_cons.mp hfloat
    obtain ⟨hkr, hkrest⟩ := List.forall_mem_cons.mp hkeyed
    obtain ⟨fr, hframe, hreading⟩ := frameRow_stagedRow hr hfr hkr
    rw [List.map_cons, List.filterMap_cons_some hframe, List.map_cons, List.map_cons, hreading,
      ih hrest hfrest hkrest]

/-- A list with a legible row is read in the layout of its rows. -/
theorem layoutOf_stagedRow {layout : host.Layout} {rows read : List Row}
    (h : ∀ r ∈ rows, Legible host rt kind layout r) (hperm : read.Perm (rows.map (stagedRow host kind)))
    (hne : rows ≠ []) : layoutOf host (read.map (·.get (tsColumn kind))) = some layout := by
  have hcolumn : tsColumn kind ∈ kind.columns := by
    cases kind <;> decide
  have htexts : ∀ c ∈ read.map (·.get (tsColumn kind)), ∃ text, someText c = some text ∧
      host.infer text = layout := by
    intro c hc
    obtain ⟨row, hrow, rfl⟩ := List.mem_map.mp hc
    obtain ⟨r, hr, rfl⟩ := List.mem_map.mp (hperm.mem_iff.mp hrow)
    obtain ⟨text, ts, htext, hblank, hlayout, -⟩ := (h r hr).time
    refine ⟨text, ?_, hlayout⟩
    rw [stagedRow_text hcolumn htext, htext, someText, if_neg hblank]
  cases hread : read with
  | nil =>
    rw [hread] at hperm
    exact absurd (List.map_eq_nil_iff.mp hperm.nil_eq.symm) hne
  | cons row read =>
    obtain ⟨text, htext, hlayout⟩ := htexts (row.get (tsColumn kind))
      (by rw [hread]; exact List.mem_cons_self)
    simp only [layoutOf, List.map_cons, List.findSome?_cons, htext, Option.map_some, hlayout]

end Read

section Land

variable {host : Host} {readable : Partition → Bool} {tree : StagingTree}

/-- A first run lands the rows it frames, and nothing else. -/
theorem lakeRows_run (kind : Kind) :
    (lakeRows (run host readable none tree {}).1.lake kind).Perm
      (frame host kind (readStaging host tree kind none)) := by
  generalize hdf : frame host kind (readStaging host tree kind none) = df
  generalize hlake : (run host readable none tree {}).1.lake = lake
  have hlookup : ∀ w, lake.lookup (kind, w) =
      if w ∈ weeks host df then some (sortByKey kind (df.filter (host.week ·.ts = w)))
      else none := by
    intro w
    rw [← hlake, lookup_run]
    simp only [clampHorizon, hdf, AList.lookup_empty, landed]
  have hkeys : (lake.keys.filter (·.1 = kind)).Nodup := lake.keys_nodup.filter _
  have hgroups : (lakeRows lake kind).Perm ((lake.keys.filter (·.1 = kind)).flatMap fun p =>
      df.filter fun r => some (kind, host.week r.ts) = some p) := by
    refine List.Perm.flatMap_left _ fun p hp => ?_
    obtain ⟨hmem, hkind⟩ := List.mem_filter.mp hp
    obtain ⟨k, w⟩ := p
    obtain rfl : k = kind := by simpa using hkind
    have hsome : (lake.lookup (k, w)).isSome := by
      rw [AList.lookup_isSome]
      exact AList.mem_keys.mpr hmem
    rw [hlookup] at hsome ⊢
    split at hsome
    · next hw =>
      rw [if_pos hw, Option.getD_some]
      refine (sortByKey_perm k _).trans (.of_eq (List.filter_congr fun r _ => ?_))
      simp
    · cases hsome
  have hflat := @Bucket.flatMap_filter_perm _ _ _ (fun r : FrameRow => some (kind, host.week r.ts))
  refine hgroups.trans (hflat hkeys fun r hr => ?_)
  refine ⟨(kind, host.week r.ts), List.mem_filter.mpr ⟨?_, by simp⟩, rfl⟩
  rw [← AList.mem_keys, ← AList.lookup_isSome, hlookup, if_pos (mem_weeks.mpr ⟨r, hr, rfl⟩)]
  rfl

end Land

theorem projected_keyed {b : Batch} {kind : Kind} {r : Row} (h : r ∈ b.rows kind) :
    ∀ c ∈ keyColumns kind, ∃ text, r.get c = .text text := by
  cases kind with
  | electrical =>
    obtain ⟨⟨row, node⟩, -, rfl⟩ := List.mem_map.mp h
    exact List.forall_mem_cons.mpr ⟨⟨_, rfl⟩, List.forall_mem_singleton.mpr ⟨_, rfl⟩⟩
  | weather =>
    obtain ⟨⟨row, node⟩, -, rfl⟩ := List.mem_map.mp h
    exact List.forall_mem_singleton.mpr ⟨_, rfl⟩

/-- Staging to lake round trip: of legible rows with distinct keys, staged in any batches, a first
run lands exactly one row each, with the reading it was staged with. -/
theorem staged_landed (rt : Runtime) (host : Host) (readable : Partition → Bool)
    (batches : List Batch) (layout : Kind → host.Layout)
    (hlegible : ∀ kind, ∀ r ∈ allRows batches kind, Legible host rt kind (layout kind) r)
    (hfloat : ∀ kind, ∀ r ∈ allRows batches kind, ∀ c ∈ numericColumns kind, ∀ q,
      r.get c = .num (.fin q) → host.Rereads q)
    (hdistinct : ∀ kind, ((allRows batches kind).map (instantKey host kind)).Nodup) :
    let tree := (batches.foldl (stage rt) ⟨∅, StagingWriter.freshDeduper⟩).tree
    let lake := (run host readable none tree {}).1.lake
    ∀ kind, ((lakeRows lake kind).map fun fr => some (fr.reading kind)).Perm
      ((allRows batches kind).map (rowReading host kind)) := by
  intro tree lake kind
  have hrow : ∀ b ∈ batches, ∀ k, ∀ r ∈ b.rows k, r ∈ allRows batches k := fun b hb k r hr =>
    List.mem_flatMap.mpr ⟨b, hb, hr⟩
  have hkeys : ((offeredRows batches).map rowKey).Nodup :=
    @rowKey_nodup host _ fun k => by rw [filter_offeredRows]; exact hdistinct k
  have hexact : Exact rt (batches.foldl (stage rt) ⟨∅, StagingWriter.freshDeduper⟩)
      (offeredRows batches) :=
    stage_exact (fresh_exact rt) (fun b hb k r hr => (hlegible k r (hrow b hb k r hr)).filed) hkeys
  have hfiled : ∀ x ∈ offeredRows batches, (stagingPath rt x).isSome := by
    intro x hx
    have hmem : x.2 ∈ allRows batches x.1 := by
      rw [← filter_offeredRows]
      exact List.mem_map_of_mem (List.mem_filter.mpr ⟨hx, by simp⟩)
    exact (hlegible x.1 x.2 hmem).filed
  have hread := @readStaging_perm rt host kind _ _ hexact.files hfiled
  rw [filter_offeredRows] at hread
  have hkeyed : ∀ r ∈ allRows batches kind, ∀ c ∈ keyColumns kind, ∃ text, r.get c = .text text := by
    intro r hr
    obtain ⟨b, -, hr⟩ := List.mem_flatMap.mp hr
    exact projected_keyed hr
  refine ((lakeRows_run kind).map _).trans ?_
  by_cases hne : allRows batches kind = []
  · have hnil : readStaging host tree kind none = [] := by
      rw [hne] at hread
      exact hread.eq_nil
    rw [hnil, hne]
    exact .refl _
  · rw [frame, layoutOf_stagedRow (hlegible kind) hread hne,
      ← frame_stagedRow (hlegible kind) (hfloat kind) hkeyed]
    exact (hread.filterMap _).map _

theorem haReceive_ne_gps : TsSource.haReceive ≠ .gps := by decide

/-- A mains reading and a temperature of one node, in two batches. -/
def twoBatches : List Batch :=
  let node : Node :=
    { nodeId := "n1", createdUtc := "2026-07-10T08:00:00Z", deviceType := "meter, \"x1\"",
      firmware := none, cadenceMs := none, locTier := .region, locRef := some "DNO_LONDON",
      cellId := none, channels := [.frequencyHz, .temp], producer := none, deletedUtc := none }
  [{ electrical := [(.mains "2026-07-10T09:00:00Z", node)] },
   { electrical := [(.mains "2026-07-10T10:00:00Z", node)]
     weather :=
       [({ time := "2026-07-10T09:00:00Z", tsSource := ⟨.haReceive, haReceive_ne_gps⟩,
           temp := some (.fin 21) }, node)] }]

theorem twoBatches_legible (kind : Kind) :
    ∀ r ∈ allRows twoBatches kind, Legible .july .ascii kind () r := by
  have hfiled : ∀ r ∈ allRows twoBatches kind,
      (StagingWriter.path .ascii kind kind.tsField r).isSome := by
    cases kind <;> decide +kernel
  have hsome : ∀ r ∈ allRows twoBatches kind, (someText (r.get (tsColumn kind))).isSome := by
    cases kind <;> decide +kernel
  have htime : ∀ r ∈ allRows twoBatches kind, ∀ text ∈ someText (r.get (tsColumn kind)),
      r.get (tsColumn kind) = .text text ∧ text ≠ "" ∧ (Host.july.parse () text).isSome := by
    cases kind <;> decide +kernel
  have hfinite : ∀ r ∈ allRows twoBatches kind, ∀ c ∈ numericColumns kind, finiteCell (r.get c) := by
    cases kind <;> decide +kernel
  intro r hr
  obtain ⟨text, htext⟩ := Option.isSome_iff_exists.mp (hsome r hr)
  obtain ⟨heq, hne, hparse⟩ := htime r hr text htext
  obtain ⟨ts, hts⟩ := Option.isSome_iff_exists.mp hparse
  exact ⟨hfiled r hr, ⟨text, ts, heq, hne, rfl, hts⟩, hfinite r hr⟩

theorem staged_landed_twoBatches :
    let tree := (twoBatches.foldl (stage .ascii) ⟨∅, StagingWriter.freshDeduper⟩).tree
    let lake := (run .july (fun _ => true) none tree {}).1.lake
    ((lakeRows lake .electrical).map fun fr => some (fr.reading .electrical)).Perm
        ((allRows twoBatches .electrical).map (rowReading .july .electrical)) ∧
      ((lakeRows lake .weather).map fun fr => some (fr.reading .weather)).Perm
        ((allRows twoBatches .weather).map (rowReading .july .weather)) := by
  have hnumbers : ∀ kind, ∀ r ∈ allRows twoBatches kind, ∀ c ∈ numericColumns kind,
      r.get c = .null ∨ r.get c = .num (.fin 50) ∨ r.get c = .num (.fin 21) := by
    intro kind
    cases kind <;> decide +kernel
  have hrereads : Host.july.Rereads 50 ∧ Host.july.Rereads 21 := by
    refine ⟨⟨?_, ?_, ?_⟩, ⟨?_, ?_, ?_⟩⟩ <;> decide +kernel
  have hdistinct : ∀ kind, ((allRows twoBatches kind).map (instantKey .july kind)).Nodup := by
    intro kind
    cases kind <;> decide +kernel
  have hfloat : ∀ kind, ∀ r ∈ allRows twoBatches kind, ∀ c ∈ numericColumns kind, ∀ q,
      r.get c = .num (.fin q) → Host.july.Rereads q := by
    intro kind r hr c hc q hq
    rcases hnumbers kind r hr c hc with h | h | h
    · rw [h] at hq
      cases hq
    · rw [h] at hq
      cases hq
      exact hrereads.1
    · rw [h] at hq
      cases hq
      exact hrereads.2
  have hlanded := staged_landed .ascii .july (fun _ => true) twoBatches (fun _ => ()) twoBatches_legible hfloat
    hdistinct
  exact ⟨hlanded .electrical, hlanded .weather⟩

end GridWitness.Acquirer
