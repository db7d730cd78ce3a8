import GridWitness.Server.HistoryLaws

namespace GridWitness.Server

open Library

/-- What a projection guarantees of a row: no text and no foreign channel in its values. -/
structure Projected (kind : Kind) (r : Row) : Prop where
  numeric : ∀ text, r.get kind.someChannel.name ≠ .text text
  column : ∀ c : Channel, r.get c.name ≠ .null → c.name ∈ kind.columns

theorem projectElectrical_projected (row : ElectricalRow) (node : Node) :
    Projected .electrical (projectElectrical row node) := by
  constructor
  · intro text
    change Cell.ofFloat row.voltageV ≠ .text text
    cases row.voltageV <;> simp [Cell.ofFloat]
  · intro c hc
    have hsome := ElectricalRow.mem_presentChannels.mp (projectElectrical_channel.mp hc)
    revert hsome
    cases c <;> simp [ElectricalRow.getattr, Kind.columns, electricalCsvColumns, Channel.name]

theorem projectWeather_projected (row : WeatherRow) (node : Node) :
    Projected .weather (projectWeather row node) := by
  constructor
  · intro text
    change Cell.ofFloat row.temp ≠ .text text
    cases row.temp <;> simp [Cell.ofFloat]
  · intro c hc
    have hsome := WeatherRow.mem_presentChannels.mp (projectWeather_channel.mp hc)
    revert hsome
    cases c <;> simp [WeatherRow.getattr, Kind.columns, weatherCsvColumns, Channel.name]

theorem consentedRows_projected {node : Node} {body : SamplesRequest} {kind : Kind} {r : Row}
    (h : r ∈ consentedRows node body kind) : Projected kind r := by
  cases kind with
  | electrical =>
    obtain ⟨row, -, rfl⟩ := List.mem_map.mp h
    exact projectElectrical_projected row node
  | weather =>
    obtain ⟨row, -, rfl⟩ := List.mem_map.mp h
    exact projectWeather_projected row node

/-- The dedupe key of a row of a kind. -/
def rowKey (x : Kind × Row) : List Cell := dedupeKey x.1.keyFields x.2

theorem rowKey_kind {x y : Kind × Row} (h : rowKey x = rowKey y) : x.1 = y.1 := by
  have hlen := congrArg List.length h
  obtain ⟨i, r⟩ := x
  obtain ⟨j, t⟩ := y
  revert hlen
  cases i <;> cases j <;> simp [rowKey, dedupeKey, Kind.keyFields, StagingWriter.electricalKey,
    StagingWriter.weatherKey]

def dedupeSize : Nat := 200000

/-- The rows the dedupe window lets through, of a sequence of rows offered to a fresh writer. -/
def letThrough (xs : List (Kind × Row)) : List (Kind × Row) :=
  Window.fresh dedupeSize rowKey [] xs

/-- The rows the dedupe window discards. -/
def discarded (xs : List (Kind × Row)) : List (Kind × Row) :=
  Window.repeated dedupeSize rowKey [] xs

/-- The writer has staged exactly the lines of the rows let through, and remembers their keys. -/
structure Ledger (w : StagingWriter) (xs : List (Kind × Row)) : Prop where
  size : w.dedupe.maxsize = dedupeSize
  holds : w.dedupe.Holds ((letThrough xs).map rowKey)
  lines : ∀ kind l, w.tree.Has kind l ↔ ∃ x ∈ letThrough xs, x.1 = kind ∧ kind.csvLine x.2 = l

theorem fresh_ledger : Ledger ⟨∅, StagingWriter.freshDeduper⟩ [] where
  size := rfl
  holds := Window.empty_holds _
  lines kind l := by
    simp [StagingTree.not_has_empty, letThrough, Window.fresh]

theorem write_ledger {rt : Runtime} (kind : Kind) {fault : Option AppendFault}
    {w : StagingWriter} {xs : List (Kind × Row)} {rows : List Row} (hw : Ledger w xs)
    (hrows : ∀ r ∈ rows, Projected kind r)
    (h : (StagingWriter.writeKind rt kind fault w rows).2.isSome) :
    Ledger (StagingWriter.writeKind rt kind fault w rows).1 (xs ++ rows.map (kind, ·)) := by
  obtain ⟨hunique, hsize, hholds⟩ := Deduper.filterNew_fresh kind.keyFields hw.holds rows
  have hkey : rowKey ∘ (kind, ·) = dedupeKey kind.keyFields := rfl
  have hthrough : letThrough (xs ++ rows.map (kind, ·)) =
      letThrough xs ++ (w.dedupe.filterNew kind.keyFields rows).2.1.map (kind, ·) := by
    rw [letThrough, Window.fresh_append, Window.fresh_map, hkey, hunique, hw.size, List.nil_append]
    rfl
  refine ⟨hsize.trans hw.size, ?_, ?_⟩
  · rw [hthrough, List.map_append, List.map_map, hkey, hunique]
    exact hholds
  · intro k l
    have happends := StagingWriter.write_appends rt kind fault w rows
    rw [hthrough]
    constructor
    · intro hl
      rcases happends.of_has hl with hl | ⟨rfl, r, hr, rfl⟩
      · obtain ⟨x, hx, hxl⟩ := (hw.lines k l).mp hl
        exact ⟨x, List.mem_append_left _ hx, hxl⟩
      · exact ⟨(k, r), List.mem_append_right _ (List.mem_map_of_mem hr), rfl, rfl⟩
    · rintro ⟨x, hx, rfl, rfl⟩
      rcases List.mem_append.mp hx with hx | hx
      · exact happends.has ((hw.lines _ _).mpr ⟨x, hx, rfl, rfl⟩)
      · obtain ⟨r, hr, rfl⟩ := List.mem_map.mp hx
        have hnumeric := (hrows r (Deduper.filterNew_unique_mem _ hr)).numeric
        exact StagingWriter.write_has h hr (Kind.csvLine_ne_header hnumeric)

/-- The rows of a request that pass the consent check, in the order they reach the writer. -/
def App.offered (s : App) : Request → List (Kind × Row)
  | .samples c =>
    match s.db.getNode c.body.nodeId with
    | none => []
    | some node =>
      (consentedRows node c.body .electrical).map (.electrical, ·) ++
        (consentedRows node c.body .weather).map (.weather, ·)
  | _ => []

def App.offeredBy (rt : Runtime) : App → List Request → List (Kind × Row)
  | _, [] => []
  | s, r :: rs => s.offered r ++ (s.handle rt r).offeredBy rt rs

def App.completes (rt : Runtime) (s : App) : Request → Bool
  | .samples c => (postSamples rt s c).2.isOk
  | _ => true

/-- Every samples request of the sequence completes without error. -/
def App.allComplete (rt : Runtime) : App → List Request → Bool
  | _, [] => true
  | s, r :: rs => s.completes rt r && (s.handle rt r).allComplete rt rs

theorem handle_ledger {rt : Runtime} {s : App} {r : Request} {xs : List (Kind × Row)}
    (hs : Ledger s.writer xs) (hr : s.completes rt r) :
    Ledger (s.handle rt r).writer (xs ++ s.offered r) := by
  by_cases hsamples : ∃ c, r = .samples c
  · obtain ⟨c, rfl⟩ := hsamples
    have hok : (postSamples rt s c).2.isOk := hr
    simp only [App.handle]
    rcases postSamples_cases rt s c with ⟨-, _, _, h⟩ | ⟨node, _, hnode, hcases⟩
    · rw [h] at hok
      cases hok
    · simp only [App.offered, App.admitted_live hnode, ← List.append_assoc]
      rcases hcases with ⟨-, h⟩ | ⟨-, -, h⟩ | ⟨he, hw, _, h⟩
      · rw [h] at hok
        cases hok
      · rw [h] at hok
        cases hok
      · rw [h]
        have helec := write_ledger .electrical hs (fun _ => consentedRows_projected) he
        exact write_ledger .weather helec (fun _ => consentedRows_projected) hw
  · have hframe := (handle_effect rt s r (not_exists.mp hsamples)).frame
    have hnone : s.offered r = [] := by
      cases r with
      | samples c => exact absurd ⟨c, rfl⟩ hsamples
      | _ => rfl
    rw [hnone, List.append_nil, App.writer, hframe.1, hframe.2.1]
    exact hs

theorem handles_ledger {rt : Runtime} {s : App} {rs : List Request} {xs : List (Kind × Row)}
    (hs : Ledger s.writer xs) (h : s.allComplete rt rs) :
    Ledger (rs.foldl (App.handle rt) s).writer (xs ++ s.offeredBy rt rs) := by
  induction rs generalizing s xs with
  | nil => simpa [App.offeredBy] using hs
  | cons r rs ih =>
    obtain ⟨hr, hrs⟩ := Bool.and_eq_true_iff.mp h
    simpa [App.offeredBy] using ih (handle_ledger hs hr) hrs

theorem offered_projected {s : App} {r : Request} {x : Kind × Row} (h : x ∈ s.offered r) :
    Projected x.1 x.2 := by
  cases r with
  | samples c =>
    simp only [App.offered] at h
    split at h
    · cases h
    · rcases List.mem_append.mp h with h | h <;>
        obtain ⟨row, hrow, rfl⟩ := List.mem_map.mp h <;> exact consentedRows_projected hrow
  | _ => cases h

theorem offeredBy_projected {rt : Runtime} {s : App} {rs : List Request} {x : Kind × Row}
    (h : x ∈ s.offeredBy rt rs) : Projected x.1 x.2 := by
  induction rs generalizing s with
  | nil => cases h
  | cons r rs ih => exact (List.mem_append.mp h).elim offered_projected ih

/-- Staging holds a row with the key of an offered row and a value in one of its channels. -/
def Represented (tree : StagingTree) (x : Kind × Row) (c : Channel) : Prop :=
  ∃ l, tree.Has x.1 l ∧ l.key x.1 = rowKey x ∧ l.get x.1 c.name ≠ .null

/-- A discarded row adds nothing, over every sequence of completed requests on a fresh server,
exactly when each of its values has its channel on a row of the same key that was let through. -/
theorem discarded_adds_nothing_iff (rt : Runtime) (internalKey : Option String) (rowsPerMin : ℚ)
    (rs : List Request) (h : (App.start internalKey rowsPerMin).allComplete rt rs) :
    let s := App.start internalKey rowsPerMin
    let xs := s.offeredBy rt rs
    (∀ x ∈ xs, ∀ c : Channel, x.2.get c.name ≠ .null →
        Represented (rs.foldl (App.handle rt) s).tree x c) ↔
      ∀ x ∈ discarded xs, ∀ c : Channel, x.2.get c.name ≠ .null →
        ∃ y ∈ letThrough xs, rowKey y = rowKey x ∧ y.2.get c.name ≠ .null := by
  intro s xs
  have hstart : Ledger s.writer [] := fresh_ledger
  have hledger : Ledger (rs.foldl (App.handle rt) s).writer xs := handles_ledger hstart h
  have hmem : ∀ x, x ∈ xs ↔ x ∈ letThrough xs ∨ x ∈ discarded xs := fun x =>
    Window.mem_fresh_or_repeated dedupeSize rowKey
  constructor
  · intro hall x hx c hc
    obtain ⟨l, hl, hkey, hvalue⟩ := hall x ((hmem x).mpr (Or.inr hx)) c hc
    obtain ⟨y, hy, hkind, rfl⟩ := (hledger.lines _ _).mp hl
    refine ⟨y, hy, ?_, Kind.csvLine_get_ne_null hvalue⟩
    rw [← hkey, Kind.csvLine_key, rowKey, hkind]
  · intro hcover x hx c hc
    obtain ⟨y, hy, hkey, hvalue⟩ : ∃ y ∈ letThrough xs, rowKey y = rowKey x ∧
        y.2.get c.name ≠ .null := by
      rcases (hmem x).mp hx with hthrough | hdiscarded
      · exact ⟨x, hthrough, rfl, hc⟩
      · exact hcover x hdiscarded c hc
    have hprojected := offeredBy_projected ((hmem y).mpr (Or.inl hy))
    have hkind : y.1 = x.1 := rowKey_kind hkey
    refine ⟨y.1.csvLine y.2, (hledger.lines _ _).mpr ⟨y, hy, hkind, by rw [hkind]⟩, ?_, ?_⟩
    · rw [← hkind, Kind.csvLine_key]
      exact hkey
    · rw [← hkind, Kind.csvLine_get, if_pos (hprojected.column c hvalue)]
      exact hvalue

/-- A node registers and sends one batch of two rows, as a meter with two channels does. -/
def twoChannelRun : List Request :=
  [.register { channels := [.frequencyHz, .voltageV], locTier := .region, region := some "LONDON" }
      none none ⟨"n1", "secret", "2026-07-10T08:00:00Z"⟩,
   .samples
    { authorization := some "Bearer secret"
      body :=
        { nodeId := "n1"
          electrical :=
            [.mains "2026-07-10T09:00:00Z",
             { tsUtc := "2026-07-10T09:00:00Z", voltageV := some (.fin 230) }] }
      monotonic := 0 }]

theorem discarded_adds_nothing_iff_twoChannelRun :
    (App.start none 6000).allComplete .ascii twoChannelRun = true ∧
    ((∀ x ∈ (App.start none 6000).offeredBy .ascii twoChannelRun,
        ∀ c : Channel, x.2.get c.name ≠ .null →
          Represented (twoChannelRun.foldl (App.handle .ascii) (App.start none 6000)).tree x c) ↔
      ∀ x ∈ discarded ((App.start none 6000).offeredBy .ascii twoChannelRun),
        ∀ c : Channel, x.2.get c.name ≠ .null →
          ∃ y ∈ letThrough ((App.start none 6000).offeredBy .ascii twoChannelRun),
            rowKey y = rowKey x ∧ y.2.get c.name ≠ .null) :=
  ⟨by decide +kernel, discarded_adds_nothing_iff .ascii none 6000 twoChannelRun (by decide +kernel)⟩

/-- The voltage of the second row is discarded with nothing staged in its place. -/
theorem voltage_discarded :
    ¬ ∀ (rt : Runtime) (internalKey : Option String) (rowsPerMin : ℚ) (rs : List Request),
      (App.start internalKey rowsPerMin).allComplete rt rs = true →
      ∀ x ∈ (App.start internalKey rowsPerMin).offeredBy rt rs,
        ∀ c : Channel, x.2.get c.name ≠ .null →
          Represented (rs.foldl (App.handle rt) (App.start internalKey rowsPerMin)).tree x c := by
  intro h
  let s := App.start none 6000
  let xs := s.offeredBy .ascii twoChannelRun
  have hcomplete : s.allComplete .ascii twoChannelRun = true := by decide +kernel
  have hvoltage : ∃ x ∈ xs, x.2.get "voltage_v" ≠ .null := by decide +kernel
  have hthrough : ∀ y ∈ letThrough xs, y.2.get "voltage_v" = .null := by decide +kernel
  have hstart : Ledger s.writer [] := fresh_ledger
  obtain ⟨x, hx, hvalue⟩ := hvoltage
  obtain ⟨l, hl, -, hlv⟩ := h .ascii none 6000 twoChannelRun hcomplete x hx .voltageV hvalue
  obtain ⟨y, hy, hkind, rfl⟩ := ((handles_ledger hstart hcomplete).lines _ _).mp hl
  exact Kind.csvLine_get_ne_null hlv (hthrough y hy)

end GridWitness.Server
