import GridWitness.Survey.CompletionLaws

namespace GridWitness.Survey

open Library Server

section Records

variable (host : ParserHost) (headers : List String)

/-- The timestamp of a record of the wide format. -/
def recordStamp (rec : Record) : Option String :=
  (classifyColumns host headers).tsCol.bind fun ts => toIsoZ host (cell rec ts)

/-- The frequency of a record, if it is in its band. -/
def recordFreq (rec : Record) : Option PyFloat :=
  (classifyColumns host headers).freqCol.bind fun col => inFreqBand (num host (cell rec col))

/-- A voltage column, with its place among them, gives a row of a record: it has a voltage in the band, or
it is the first and carries the frequency. -/
def GivesRow (rec : Record) (x : (String × String) × Nat) : Prop :=
  (inVoltBand (num host (cell rec x.1.1))).isSome ∨ x.2 = 0 ∧ (recordFreq host headers rec).isSome

/-- The voltage columns that give a row of a record have different phases. -/
def PhasesApart (rec : Record) : Prop :=
  (classifyColumns host headers).voltCols.zipIdx.Pairwise fun x y =>
    GivesRow host headers rec x → GivesRow host headers rec y → x.1.2 ≠ y.1.2

instance (rec : Record) (x : (String × String) × Nat) : Decidable (GivesRow host headers rec x) :=
  inferInstanceAs (Decidable (_ ∨ _))

instance (rec : Record) : Decidable (PhasesApart host headers rec) :=
  inferInstanceAs (Decidable (List.Pairwise _ _))

/-- The key of a parsed row in the dedupe window, but for its node. -/
def ParsedRow.key (row : ParsedRow) : String × String := (row.tsUtc, row.phase)

end Records

section Keys

variable {host : ParserHost} {headers : List String}

/-- The records are read one by one, where there is a timestamp column. -/
theorem rowsFromRecords_rows (records : List Record) :
    (rowsFromRecords host records headers).rows = records.flatMap fun rec =>
      (classifyColumns host headers).tsCol.elim []
        (recordRows host · (classifyColumns host headers) rec) := by
  simp only [rowsFromRecords]
  cases hts : (classifyColumns host headers).tsCol with
  | none => simp
  | some ts =>
    simp only [Option.elim_some]
    split
    · next hnone =>
      -- without a column nothing is read
      refine (List.flatMap_eq_nil_iff.mpr fun rec _ => ?_).symm
      simp only [recordRows, hnone]
      split
      · rfl
      · rfl
    · rw [List.flatMap_def]

theorem mem_voltRows {iso : String} {rec : Record} {freq : Option PyFloat}
    {cols : List (String × String)} {row : ParsedRow} (h : row ∈ voltRows host iso rec freq cols) :
    row.tsUtc = iso := by
  induction cols generalizing freq with
  | nil => cases h
  | cons x cols ih =>
    simp only [voltRows] at h
    split at h
    · exact ih h
    · rcases List.mem_cons.mp h with rfl | h
      · rfl
      · exact ih h

variable (headers) in
/-- Only the first voltage column carries the frequency. -/
theorem voltRows_phases_later (iso : String) (rec : Record) (cols : List (String × String)) (k : Nat) :
    (voltRows host iso rec none cols).map (·.phase) =
      ((cols.zipIdx (k + 1)).filter (GivesRow host headers rec ·)).map (·.1.2) := by
  induction cols generalizing k with
  | nil => rfl
  | cons x cols ih =>
    rw [List.zipIdx_cons, List.filter_cons, voltRows]
    cases hv : inVoltBand (num host (cell rec x.1)) with
    | none => simp [GivesRow, hv, ih (k + 1)]
    | some v => simp [GivesRow, hv, ih (k + 1)]

variable (host headers) in
theorem voltRows_phases (iso : String) (rec : Record) (cols : List (String × String)) :
    (voltRows host iso rec (recordFreq host headers rec) cols).map (·.phase) =
      (cols.zipIdx.filter (GivesRow host headers rec ·)).map (·.1.2) := by
  cases cols with
  | nil => rfl
  | cons x cols =>
    rw [List.zipIdx_cons, List.filter_cons, voltRows]
    cases hv : inVoltBand (num host (cell rec x.1)) with
    | none =>
      cases hf : recordFreq host headers rec with
      | none => simp [GivesRow, hv, hf, voltRows_phases_later headers iso rec cols 0]
      | some f => simp [GivesRow, hv, hf, voltRows_phases_later headers iso rec cols 0]
    | some v => simp [GivesRow, hv, voltRows_phases_later headers iso rec cols 0]

theorem recordRows_phases {ts : String} (hts : (classifyColumns host headers).tsCol = some ts)
    {rec : Record} {iso : String} (hiso : recordStamp host headers rec = some iso) :
    ((recordRows host ts (classifyColumns host headers) rec).map (·.phase)).Nodup ↔
      PhasesApart host headers rec := by
  have hcell : toIsoZ host (cell rec ts) = some iso := by simpa [recordStamp, hts] using hiso
  simp only [recordRows, hcell, PhasesApart]
  split
  · next hnone =>
    rw [hnone]
    refine iff_of_true ?_ List.Pairwise.nil
    cases (classifyColumns host headers).freqCol.bind fun col => inFreqBand (num host (cell rec col)) with
    | none => exact List.nodup_nil
    | some f => exact List.nodup_singleton _
  · have hphases := voltRows_phases host headers iso rec
      (classifyColumns host headers).voltCols
    rw [recordFreq] at hphases
    rw [hphases, List.Nodup, List.pairwise_map, List.pairwise_filter]
    simp only [decide_eq_true_eq]

theorem recordRows_stamp {ts : String} (hts : (classifyColumns host headers).tsCol = some ts)
    {rec : Record} {row : ParsedRow} (h : row ∈ recordRows host ts (classifyColumns host headers) rec) :
    recordStamp host headers rec = some row.tsUtc := by
  simp only [recordRows] at h
  split at h
  · cases h
  · next iso hiso =>
    have hrow : row.tsUtc = iso := by
      split at h
      · rw [Option.mem_toList] at h
        obtain ⟨f, -, rfl⟩ := Option.map_eq_some_iff.mp h
        rfl
      · exact mem_voltRows h
    rw [recordStamp, hts, Option.bind_some, hiso, hrow]

/-- A voltage in its band has a row of its time and its phase. -/
theorem rowsFromRecords_volt {records : List Record} {rec : Record} (hrec : rec ∈ records) {iso : String}
    (hiso : recordStamp host headers rec = some iso) {x : String × String}
    (hx : x ∈ (classifyColumns host headers).voltCols) {v : PyFloat}
    (hv : inVoltBand (num host (cell rec x.1)) = some v) :
    ∃ f, (⟨iso, x.2, some v, f⟩ : ParsedRow) ∈ (rowsFromRecords host records headers).rows := by
  obtain ⟨ts, hts, hcell⟩ := Option.bind_eq_some_iff.mp hiso
  obtain ⟨f, hf⟩ := voltRows_volt iso hx hv (recordFreq host headers rec)
  refine ⟨f, ?_⟩
  rw [rowsFromRecords_rows]
  refine List.mem_flatMap.mpr ⟨rec, hrec, ?_⟩
  rw [hts, Option.elim_some, recordRows, hcell]
  simp only [if_neg (List.ne_nil_of_mem hx)]
  exact hf

/-- Records of different times have rows of different keys, exactly where the phases of each are apart. -/
theorem rowKeys_nodup_iff {records : List Record}
    (hstamps : (records.filterMap (recordStamp host headers)).Nodup) :
    ((rowsFromRecords host records headers).rows.map ParsedRow.key).Nodup ↔
      ∀ rec ∈ records, (recordStamp host headers rec).isSome → PhasesApart host headers rec := by
  cases hts : (classifyColumns host headers).tsCol with
  | none =>
    have hnone : (rowsFromRecords host records headers).rows = [] := by
      rw [rowsFromRecords_rows]
      exact List.flatMap_eq_nil_iff.mpr fun _ _ => by rw [hts, Option.elim_none]
    simp [hnone, hts, recordStamp]
  | some ts =>
    simp only [rowsFromRecords_rows, hts, Option.elim_some, List.map_flatMap]
    have hkeys : ∀ rec ∈ records,
        ((recordRows host ts (classifyColumns host headers) rec).map ParsedRow.key).Nodup ↔
          ((recordStamp host headers rec).isSome → PhasesApart host headers rec) := by
      intro rec _
      cases hiso : recordStamp host headers rec with
      | none =>
        have hnone : recordRows host ts (classifyColumns host headers) rec = [] := by
          refine List.eq_nil_iff_forall_not_mem.mpr fun row hrow => ?_
          rw [recordRows_stamp hts hrow] at hiso
          cases hiso
        simp [hnone]
      | some iso =>
        have hsame : (recordRows host ts (classifyColumns host headers) rec).map ParsedRow.key =
            ((recordRows host ts (classifyColumns host headers) rec).map (·.phase)).map (iso, ·) := by
          rw [List.map_map]
          refine List.map_congr_left fun row hrow => ?_
          have hrow := recordRows_stamp hts hrow
          rw [hiso] at hrow
          rw [ParsedRow.key, ← Option.some.inj hrow]
          rfl
        rw [hsame, List.nodup_map_iff (Prod.mk_right_injective iso), recordRows_phases hts hiso]
        simp
    have hapart : records.Pairwise fun rec rec' => List.Disjoint
        ((recordRows host ts (classifyColumns host headers) rec).map ParsedRow.key)
        ((recordRows host ts (classifyColumns host headers) rec').map ParsedRow.key) := by
      refine (List.pairwise_filterMap.mp hstamps).imp fun {rec rec'} hne key hkey hkey' => ?_
      obtain ⟨row, hrow, rfl⟩ := List.mem_map.mp hkey
      obtain ⟨row', hrow', heq⟩ := List.mem_map.mp hkey'
      exact hne _ (recordRows_stamp hts hrow) _ (recordRows_stamp hts hrow') (Prod.mk.inj heq).1.symm
    rw [List.nodup_flatMap]
    exact ⟨fun h rec hrec => (hkeys rec hrec).mp (h.1 rec hrec),
      fun h => ⟨fun rec hrec => (hkeys rec hrec).mpr (h rec hrec), hapart⟩⟩

end Keys

section Staged

variable {rt : Runtime} {node : Node}

/-- The rows of a parse as they are given to the writer. -/
def projectedRows (node : Node) (rows : List ParsedRow) : List Row :=
  rows.filterMap fun pr => pr.validate.map (projectElectrical · node)

theorem ParsedRow.validate_fields {pr : ParsedRow} {row : ElectricalRow} (h : pr.validate = some row) :
    row.tsUtc = pr.tsUtc ∧ row.phase.value = pr.phase ∧ row.voltageV = pr.voltageV := by
  simp only [validate] at h
  split at h
  · cases h
  · next phase hphase =>
    split at h
    · cases h
      have hvalue := List.find?_some hphase
      exact ⟨rfl, of_decide_eq_true hvalue, rfl⟩
    · cases h

/-- A node that consents to what the rows of a parse carry has all of them staged by a drain. -/
theorem stagedRows_projected {rows : List ParsedRow} (hvalid : ∀ pr ∈ rows, pr.validate.isSome)
    (hconsent : ∀ row : ElectricalRow, ∀ pr ∈ rows, pr.validate = some row →
      ∀ c ∈ row.presentChannels, c ∈ node.channels) :
    stagedRows node rows = some (projectedRows node rows) := by
  induction rows with
  | nil => rfl
  | cons pr rows ih =>
    obtain ⟨row, hrow⟩ := Option.isSome_iff_exists.mp (hvalid pr List.mem_cons_self)
    have hpresent : ∀ c ∈ row.presentChannels, c ∈ node.channels := hconsent row pr List.mem_cons_self hrow
    rw [stagedRows, hrow, ih (fun p hp => hvalid p (List.mem_cons_of_mem _ hp))
      fun r p hp => hconsent r p (List.mem_cons_of_mem _ hp)]
    simpa [projectedRows, hrow, List.filter_eq_nil_iff] using hpresent

theorem mem_projectedRows {rows : List ParsedRow} {r : Row} :
    r ∈ projectedRows node rows ↔
      ∃ pr ∈ rows, ∃ row, pr.validate = some row ∧ projectElectrical row node = r := by
  simp only [projectedRows, List.mem_filterMap, Option.map_eq_some_iff]

theorem projected_key {pr : ParsedRow} {row : ElectricalRow} (h : pr.validate = some row) :
    dedupeKey StagingWriter.electricalKey (projectElectrical row node) =
      [.text node.nodeId, .text pr.key.1, .text pr.key.2] := by
  obtain ⟨hts, hphase, -⟩ := ParsedRow.validate_fields h
  rw [ParsedRow.key, ← hts, ← hphase]
  rfl

variable (node) in
/-- The keys of valid rows, which are those of the writer with the node. -/
theorem projectedRows_keys {rows : List ParsedRow} (hvalid : ∀ pr ∈ rows, pr.validate.isSome) :
    (projectedRows node rows).map (dedupeKey StagingWriter.electricalKey) =
      (rows.map ParsedRow.key).map fun key => [.text node.nodeId, .text key.1, .text key.2] := by
  induction rows with
  | nil => rfl
  | cons pr rows ih =>
    obtain ⟨row, hrow⟩ := Option.isSome_iff_exists.mp (hvalid pr List.mem_cons_self)
    have hrows := ih fun p hp => hvalid p (List.mem_cons_of_mem _ hp)
    simp only [projectedRows, List.filterMap_cons, hrow, Option.map_some, List.map_cons,
      projected_key hrow] at hrows ⊢
    rw [hrows]

variable (rt) in
/-- A fresh writer stages rows of different keys one and all. -/
theorem write_fresh (tree : StagingTree) {rows : List Row}
    (hkeys : (rows.map (dedupeKey StagingWriter.electricalKey)).Nodup)
    (hpaths : ∀ r ∈ rows, (StagingWriter.path rt .electrical "ts_utc" r).isSome) :
    (StagingWriter.writeElectrical rt none ⟨tree, StagingWriter.freshDeduper⟩ rows).2 =
        some (rows.length, 0) ∧
      ∀ r ∈ rows, Kind.csvLine .electrical r ≠ Kind.header .electrical →
        (StagingWriter.writeElectrical rt none ⟨tree, StagingWriter.freshDeduper⟩ rows).1.tree.Has
          .electrical (Kind.csvLine .electrical r) := by
  have hunique : (StagingWriter.freshDeduper.filterNew StagingWriter.electricalKey rows).2.1 = rows :=
    ((Deduper.filterNew_fresh _ (Window.empty_holds 200000) rows).1).trans
      (Window.fresh_of_nodup _ _ (by simpa using hkeys))
  have hcount := (Deduper.filterNew_sublist StagingWriter.electricalKey StagingWriter.freshDeduper rows).2
  rw [hunique, Nat.add_eq_left] at hcount
  have hdone : (StagingWriter.writeElectrical rt none ⟨tree, StagingWriter.freshDeduper⟩ rows).2.isSome :=
    writeElectrical_isSome _ hpaths
  refine ⟨?_, fun r hr hline => StagingWriter.write_has hdone (hunique.symm ▸ hr) hline⟩
  obtain ⟨counts, hcounts⟩ := Option.isSome_iff_exists.mp hdone
  rw [hcounts]
  simp only [StagingWriter.writeElectrical, StagingWriter.write, hunique, hcount] at hcounts
  split at hcounts
  · exact hcounts.symm
  · cases hcounts

end Staged

/-- No voltage of a survey is lost: its rows have keys of their own, a fresh writer stages every one of
them, and each voltage in the band is on a line of its time and its phase. -/
structure VoltagesKept (host : ParserHost) (node : Node) (tree : StagingTree) (headers : List String)
    (records : List Record) : Prop where
  keys : ((rowsFromRecords host records headers).rows.map ParsedRow.key).Nodup
  staged : (StagingWriter.writeElectrical host.rt none ⟨tree, StagingWriter.freshDeduper⟩
    (projectedRows node (rowsFromRecords host records headers).rows)).2 =
      some ((rowsFromRecords host records headers).rows.length, 0)
  cells : ∀ rec ∈ records, ∀ iso, recordStamp host headers rec = some iso →
    ∀ x ∈ (classifyColumns host headers).voltCols, ∀ v, inVoltBand (num host (cell rec x.1)) = some v →
      ∃ l, (StagingWriter.writeElectrical host.rt none ⟨tree, StagingWriter.freshDeduper⟩
          (projectedRows node (rowsFromRecords host records headers).rows)).1.tree.Has .electrical l ∧
        l.key .electrical = [.text node.nodeId, .text iso, .text x.2] ∧
        l.get .electrical "voltage_v" = .ofFloat (some v)

/-- No voltage is lost, exactly where in no record two columns of one phase both give a row. -/
theorem voltages_kept_iff (host : ParserHost)
    (hdates : ∀ value dt, host.toDatetime value = some dt → (host.rt.parseIso (isoZ dt)).isSome)
    (node : Node) (tree : StagingTree) (headers : List String) (records : List Record)
    (hstamps : (records.filterMap (recordStamp host headers)).Nodup) :
    VoltagesKept host node tree headers records ↔
      ∀ rec ∈ records, (recordStamp host headers rec).isSome → PhasesApart host headers rec := by
  refine ⟨fun h => (rowKeys_nodup_iff hstamps).mp h.keys, fun h => ?_⟩
  have hkeys := (rowKeys_nodup_iff hstamps).mpr h
  have haccepted : ∀ pr ∈ (rowsFromRecords host records headers).rows, pr.Accepted host.rt :=
    ((Emitted.wide records headers).accepted_iff hdates).mpr fun _ hrec => absurd hrec List.not_mem_nil
  have hvalid : ∀ pr ∈ (rowsFromRecords host records headers).rows, pr.validate.isSome :=
    fun pr hpr => (haccepted pr hpr).validated
  have hprojected := projectedRows_keys node hvalid
  have hwriterKeys : ((projectedRows node (rowsFromRecords host records headers).rows).map
      (dedupeKey StagingWriter.electricalKey)).Nodup := by
    rw [hprojected]
    refine hkeys.map fun key key' heq => ?_
    simpa [Prod.ext_iff] using heq
  have hlength : (projectedRows node (rowsFromRecords host records headers).rows).length =
      (rowsFromRecords host records headers).rows.length := by
    simpa using congrArg List.length hprojected
  have hpaths : ∀ r ∈ projectedRows node (rowsFromRecords host records headers).rows,
      (StagingWriter.path host.rt .electrical "ts_utc" r).isSome := by
    intro r hr
    obtain ⟨pr, hpr, row, hrow, rfl⟩ := mem_projectedRows.mp hr
    have hts : (projectElectrical row node).get "ts_utc" = .text pr.tsUtc := by
      rw [← (ParsedRow.validate_fields hrow).1]
      rfl
    rw [StagingWriter.path, hts]
    exact Option.isSome_map.trans (haccepted pr hpr).dated
  obtain ⟨hstaged, hlines⟩ := write_fresh host.rt tree hwriterKeys hpaths
  refine ⟨hkeys, hstaged.trans (by rw [hlength]), fun rec hrec iso hiso x hx v hv => ?_⟩
  obtain ⟨f, hpr⟩ := rowsFromRecords_volt hrec hiso hx hv
  obtain ⟨row, hrow⟩ := Option.isSome_iff_exists.mp (hvalid _ hpr)
  have hvolt : (projectElectrical row node).get "voltage_v" = .ofFloat (some v) :=
    congrArg Cell.ofFloat (ParsedRow.validate_fields hrow).2.2
  have hline : Kind.csvLine .electrical (projectElectrical row node) ≠ Kind.header .electrical := by
    refine Kind.csvLine_ne_header fun text htext => ?_
    cases hvolt.symm.trans htext
  refine ⟨_, hlines _ (mem_projectedRows.mpr ⟨_, hpr, row, hrow, rfl⟩) hline, ?_, ?_⟩
  · rw [Kind.csvLine_key]
    exact projected_key hrow
  · rw [Kind.csvLine_get, if_pos (by decide), hvolt]

def loggerNode : Node where
  createdUtc := "2026-01-01T00:00:00Z"
  deviceType := "logger"
  firmware := none
  cadenceMs := none
  locTier := .anon
  locRef := none
  cellId := none
  channels := [.frequencyHz, .voltageV]
  producer := none
  deletedUtc := none
  nodeId := "n1"

/-- The record of one line of a log. -/
def logRecord (headers row : List String) : List Record := [dictRow headers row]

theorem voltages_kept_iff_threePhases :
    VoltagesKept .ascii loggerNode ∅ ["Time", "V1", "V2", "V3"]
        (logRecord ["Time", "V1", "V2", "V3"] ["2026-01-01T00:00:00Z", "230", "231", "232"]) ∧
      (rowsFromRecords .ascii
        (logRecord ["Time", "V1", "V2", "V3"] ["2026-01-01T00:00:00Z", "230", "231", "232"])
        ["Time", "V1", "V2", "V3"]).rows.length = 3 :=
  ⟨(voltages_kept_iff .ascii ParserHost.ascii_dates loggerNode ∅ _ _ (by decide +kernel)).mpr
    (by decide +kernel), by decide +kernel⟩

/-- The voltage columns `Uan` and `Ubn` are recognised, but not their phases. -/
theorem second_phase_lost :
    ¬∀ (host : ParserHost) (node : Node) (tree : StagingTree) (headers : List String) (records : List Record),
        (∀ value dt, host.toDatetime value = some dt → (host.rt.parseIso (isoZ dt)).isSome) →
        (records.filterMap (recordStamp host headers)).Nodup →
          VoltagesKept host node tree headers records := by
  intro h
  have hkept := h .ascii loggerNode ∅ ["Time", "Uan", "Ubn"]
    (logRecord ["Time", "Uan", "Ubn"] ["2026-01-01T00:00:00Z", "230", "231"])
    ParserHost.ascii_dates (by decide +kernel)
  have hkeys := hkept.keys
  revert hkeys
  decide +kernel

end GridWitness.Survey
