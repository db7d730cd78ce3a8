import GridWitness.Survey.Parsers

namespace GridWitness.Survey

open Library Server

section Records

variable {names : List String} {row row' : List String}

/-- The sets of a record, one after the other, from any records that agree on some columns. -/
theorem foldl_set_agree {P : String → Prop} (items : List (String × Nat))
    (hitems : ∀ x ∈ items, P x.1 → row[x.2]? = row'[x.2]?) (rec rec' : Record)
    (hrec : ∀ col, P col → rec.get col = rec'.get col) (col : String) (hcol : P col) :
    (items.foldl (fun (r : Record) (x : String × Nat) => r.set x.1 row[x.2]?) rec).get col =
      (items.foldl (fun (r : Record) (x : String × Nat) => r.set x.1 row'[x.2]?) rec').get col := by
  induction items generalizing rec rec' with
  | nil => exact hrec col hcol
  | cons x items ih =>
    refine ih (fun y hy => hitems y (List.mem_cons_of_mem _ hy)) _ _ fun c hc => ?_
    rw [Dict.get_set, Dict.get_set]
    split
    · next heq => rw [hitems x List.mem_cons_self (heq ▸ hc)]
    · exact hrec c hc

/-- Lines that agree on some columns have records that do. -/
theorem dictRow_agree {P : String → Prop}
    (h : ∀ (i : Nat) (name : String), names[i]? = some name → P name → row[i]? = row'[i]?) (col : String)
    (hcol : P col) :
    (dictRow names row).get col = (dictRow names row').get col := by
  refine foldl_set_agree names.zipIdx (fun x hx hP => ?_) [] [] (fun _ _ => rfl) col hcol
  obtain ⟨name, i⟩ := x
  exact h i name (List.mem_zipIdx_iff_getElem?.mp hx) hP

theorem foldl_set_get (row : List String) (f : String → String) (items : List (String × Nat))
    (hitems : ∀ x ∈ items, row[x.2]? = some (f x.1)) (rec : Record) (name : String) :
    (items.foldl (fun (r : Record) (x : String × Nat) => r.set x.1 row[x.2]?) rec).get name =
      if name ∈ items.map (·.1) then some (some (f name)) else rec.get name := by
  induction items generalizing rec with
  | nil => rfl
  | cons x items ih =>
    rw [List.foldl_cons, ih (fun y hy => hitems y (List.mem_cons_of_mem _ hy)), Dict.get_set,
      hitems x List.mem_cons_self]
    rw [List.map_cons]
    by_cases hmem : name ∈ items.map (·.1)
    · rw [if_pos hmem, if_pos (List.mem_cons_of_mem _ hmem)]
    · by_cases heq : name = x.1
      · rw [if_neg hmem, if_pos heq, if_pos (heq ▸ List.mem_cons_self), heq]
      · rw [if_neg hmem, if_neg heq, if_neg fun h => (List.mem_cons.mp h).elim heq hmem]

/-- The record of a line whose cells are made from the names of their columns. -/
theorem dictRow_map (f : String → String) {name : String} (hname : name ∈ names) :
    (dictRow names (names.map f)).get name = some (some (f name)) := by
  have hget := foldl_set_get (names.map f) f names.zipIdx (fun x hx => ?_) [] name
  · rw [List.zipIdx_map_fst, if_pos hname] at hget
    exact hget
  · obtain ⟨n, i⟩ := x
    rw [List.getElem?_map, List.mem_zipIdx_iff_getElem?.mp hx, Option.map_some]

end Records

section Wide

variable (host : ParserHost) (headers : List String)

/-- A column of current or power, in any letter case; the timestamp column is none. -/
def Sensitive (header : String) : Prop :=
  (contains (host.rt.lower header) "current" || contains (host.rt.lower header) "power") ∧
    (classifyColumns host headers).tsCol ≠ some header

instance (header : String) : Decidable (Sensitive host headers header) :=
  inferInstanceAs (Decidable (_ ∧ _))

/-- Two lines that differ in the cells of sensitive columns only. -/
structure SameElsewhere (row row' : List String) : Prop where
  length : row.length = row'.length
  cells : ∀ i : Nat, (∀ header, headers[i]? = some header → ¬Sensitive host headers header) →
    row[i]? = row'[i]?

/-- The rows of a file in the wide format. -/
def rowsOf (rows : List (List String)) : List ParsedRow :=
  (rowsFromRecords host (dictRows headers rows) headers).rows

/-- No column of current or power is recognised as frequency or as voltage. -/
def Guarded : Prop :=
  ∀ header ∈ headers, Sensitive host headers header →
    headers.find? (matchTokens host · freqTokens) ≠ some header ∧
      (matchTokens host header voltTokens → matchTokens host header freqTokens)

instance : Decidable (Guarded host headers) :=
  inferInstanceAs (Decidable (∀ header ∈ headers, Sensitive host headers header →
    headers.find? (matchTokens host · freqTokens) ≠ some header ∧
      (matchTokens host header voltTokens → matchTokens host header freqTokens)))

variable {host headers}

theorem classifyColumns_guarded (h : Guarded host headers) :
    (∀ x ∈ (classifyColumns host headers).voltCols, ¬Sensitive host headers x.1) ∧
      ∀ col ∈ (classifyColumns host headers).freqCol, ¬Sensitive host headers col := by
  refine ⟨fun x hx hsensitive => ?_, fun col hcol hsensitive => ?_⟩
  · obtain ⟨header, hheader, rfl⟩ := List.mem_map.mp hx
    obtain ⟨hmem, hmatch⟩ := List.mem_filter.mp hheader
    simp only [Bool.and_eq_true, Bool.not_eq_true'] at hmatch
    have hfreq := (h header hmem hsensitive).2 hmatch.1.1
    rw [hmatch.1.2] at hfreq
    cases hfreq
  · exact (h col (List.mem_of_find?_eq_some hcol) hsensitive).1 hcol

theorem voltRows_agree {iso : String} {rec rec' : Record} {cols : List (String × String)}
    (h : ∀ x ∈ cols, rec.get x.1 = rec'.get x.1) (freq : Option PyFloat) :
    voltRows host iso rec freq cols = voltRows host iso rec' freq cols := by
  induction cols generalizing freq with
  | nil => rfl
  | cons x cols ih =>
    have hcell : cell rec x.1 = cell rec' x.1 := by rw [cell, cell, h x List.mem_cons_self]
    simp only [voltRows, hcell, ih fun y hy => h y (List.mem_cons_of_mem _ hy)]

/-- The rows of a record depend on the chosen columns alone. -/
theorem recordRows_agree {tsCol : String} {columns : Columns} {rec rec' : Record}
    (hts : rec.get tsCol = rec'.get tsCol)
    (hvolt : ∀ x ∈ columns.voltCols, rec.get x.1 = rec'.get x.1)
    (hfreq : ∀ col ∈ columns.freqCol, rec.get col = rec'.get col) :
    recordRows host tsCol columns rec = recordRows host tsCol columns rec' := by
  have hcell : (columns.freqCol.bind fun col => inFreqBand (num host (cell rec col))) =
      columns.freqCol.bind fun col => inFreqBand (num host (cell rec' col)) := by
    cases hcol : columns.freqCol with
    | none => rfl
    | some col => rw [Option.bind_some, Option.bind_some, cell, cell, hfreq col hcol]
  simp only [recordRows, cell, hts]
  split
  · rfl
  · simp only [cell] at hcell
    rw [hcell, voltRows_agree hvolt]

/-- The rows of one line. -/
def lineRows (host : ParserHost) (headers : List String) (tsCol : String) (row : List String) :
    List ParsedRow :=
  if row = [] then [] else recordRows host tsCol (classifyColumns host headers) (dictRow headers row)

/-- A file is read line by line, where it has a timestamp column. -/
theorem rowsOf_eq (rows : List (List String)) :
    rowsOf host headers rows =
      ((classifyColumns host headers).tsCol.elim [] fun ts => rows.flatMap (lineRows host headers ts)) := by
  have hlines : ∀ ts, ((dictRows headers rows).map
      (recordRows host ts (classifyColumns host headers))).flatten =
        rows.flatMap (lineRows host headers ts) := by
    intro ts
    induction rows with
    | nil => rfl
    | cons row rows ih =>
      simp only [dictRows, List.filter_cons, List.flatMap_cons, lineRows] at ih ⊢
      by_cases hrow : row = []
      · simpa [hrow] using ih
      · simpa [hrow] using ih
  simp only [rowsOf, rowsFromRecords]
  cases hts : (classifyColumns host headers).tsCol with
  | none => rfl
  | some ts =>
    simp only [Option.elim_some]
    split
    · next hnone =>
      -- without a column nothing is read
      have hempty : ∀ row ∈ rows, lineRows host headers ts row = [] := by
        intro row _
        simp only [lineRows, recordRows, hnone]
        split
        · rfl
        · split <;> rfl
      exact (List.flatMap_eq_nil_iff.mpr hempty).symm
    · exact hlines ts

theorem lineRows_agree (hguard : Guarded host headers) {ts : String}
    (hts : (classifyColumns host headers).tsCol = some ts) {row row' : List String}
    (h : SameElsewhere host headers row row') :
    lineRows host headers ts row = lineRows host headers ts row' := by
  have hnil : row = [] ↔ row' = [] := by
    rw [← List.length_eq_zero_iff, ← List.length_eq_zero_iff, h.length]
  have hagree : ∀ col, ¬Sensitive host headers col →
      (dictRow headers row).get col = (dictRow headers row').get col := by
    refine dictRow_agree fun i name hname hplain => h.cells i fun header hheader => ?_
    obtain rfl : name = header := Option.some.inj (hname.symm.trans hheader)
    exact hplain
  obtain ⟨hvolt, hfreq⟩ := classifyColumns_guarded hguard
  have hrecord : recordRows host ts (classifyColumns host headers) (dictRow headers row) =
      recordRows host ts (classifyColumns host headers) (dictRow headers row') := recordRows_agree
    (hagree ts fun hsensitive => hsensitive.2 hts) (fun x hx => hagree x.1 (hvolt x hx))
    (fun col hcol => hagree col (hfreq col hcol))
  simp only [lineRows, hnil, hrecord]

theorem rowsOf_agree (hguard : Guarded host headers) {rows rows' : List (List String)}
    (h : List.Forall₂ (SameElsewhere host headers) rows rows') :
    rowsOf host headers rows = rowsOf host headers rows' := by
  rw [rowsOf_eq, rowsOf_eq]
  cases hts : (classifyColumns host headers).tsCol with
  | none => rfl
  | some ts =>
    simp only [Option.elim_some]
    induction h with
    | nil => rfl
    | cons hrow _ ih => rw [List.flatMap_cons, List.flatMap_cons, lineRows_agree hguard hts hrow, ih]

/-- The text of a probing line in a column: a timestamp, the number in one column, nothing elsewhere. -/
def probe (ts header text name : String) : String :=
  if name = ts then "2026-01-01T00:00:00Z" else if name = header then text else ""

theorem num_blank (reads : host.Reads) : num host (some "") = none := by
  rw [num, Option.getD_some, reads.strip_blank]
  rfl

theorem num_fifty (reads : host.Reads) : num host (some "50") = some (.fin 50) := by
  rw [num, Option.getD_some, reads.strip_number]
  exact reads.float_number

theorem cell_probe (ts header text : String) {name : String} (hname : name ∈ headers) :
    cell (dictRow headers (headers.map (probe ts header text))) name =
      some (probe ts header text name) := by
  rw [cell, dictRow_map _ hname, Option.getD_some]

/-- Voltage columns without a voltage. -/
def NoVolts (host : ParserHost) (rec : Record) (cols : List (String × String)) : Prop :=
  ∀ x ∈ cols, inVoltBand (num host (cell rec x.1)) = none

theorem NoVolts.rows {rec : Record} {cols : List (String × String)} (h : NoVolts host rec cols)
    (iso : String) (freq : Option PyFloat) :
    ∀ r ∈ voltRows host iso rec freq cols, r.voltageV = none := by
  induction cols generalizing freq with
  | nil => exact fun r hr => absurd hr List.not_mem_nil
  | cons x cols ih =>
    have hcols : NoVolts host rec cols := fun y hy => h y (List.mem_cons_of_mem _ hy)
    intro r hr
    simp only [voltRows, h x List.mem_cons_self] at hr
    split at hr
    · exact ih hcols none r hr
    · rcases List.mem_cons.mp hr with rfl | hr
      · rfl
      · exact ih hcols none r hr

theorem NoVolts.rows_nil {rec : Record} {cols : List (String × String)} (h : NoVolts host rec cols)
    (iso : String) : voltRows host iso rec none cols = [] := by
  induction cols with
  | nil => rfl
  | cons x cols ih =>
    simp only [voltRows, h x List.mem_cons_self, and_self, if_true]
    exact ih fun y hy => h y (List.mem_cons_of_mem _ hy)

/-- A voltage in its band has a row of its record, under the phase of its column. -/
theorem voltRows_volt (iso : String) {rec : Record} {cols : List (String × String)}
    {x : String × String} (hx : x ∈ cols) {v : PyFloat}
    (hv : inVoltBand (num host (cell rec x.1)) = some v) (freq : Option PyFloat) :
    ∃ f, (⟨iso, x.2, some v, f⟩ : ParsedRow) ∈ voltRows host iso rec freq cols := by
  induction cols generalizing freq with
  | nil => exact absurd hx List.not_mem_nil
  | cons y cols ih =>
    rcases List.mem_cons.mp hx with rfl | hx
    · refine ⟨freq, ?_⟩
      simp [voltRows, hv]
    · obtain ⟨f, hf⟩ := ih hx none
      refine ⟨f, ?_⟩
      simp only [voltRows]
      split
      · exact hf
      · exact List.mem_cons_of_mem _ hf

theorem mem_voltCols {x : String × String} (hx : x ∈ (classifyColumns host headers).voltCols) :
    x.1 ∈ headers ∧ (classifyColumns host headers).tsCol ≠ some x.1 := by
  obtain ⟨header, hheader, rfl⟩ := List.mem_map.mp hx
  obtain ⟨hmem, hmatch⟩ := List.mem_filter.mp hheader
  simp only [Bool.and_eq_true, decide_eq_true_eq] at hmatch
  exact ⟨hmem, hmatch.2.symm⟩

section Probe

variable {ts header : String}

/-- The record of a probing line. -/
def probeRecord (headers : List String) (ts header text : String) : Record :=
  dictRow headers (headers.map (probe ts header text))

theorem toIsoZ_probe (reads : host.Reads) (hts : (classifyColumns host headers).tsCol = some ts)
    (header : String) :
    ∃ iso, ∀ text, toIsoZ host (cell (probeRecord headers ts header text) ts) = some iso := by
  have hmem : ts ∈ headers := List.mem_of_find?_eq_some hts
  obtain ⟨dt, hdt⟩ := Option.isSome_iff_exists.mp reads.toDatetime_instant
  refine ⟨isoZ dt, fun text => ?_⟩
  rw [probeRecord, cell_probe ts header text hmem, probe, if_pos rfl, toIsoZ, hdt, Option.map_some]

theorem noVolts_blank (reads : host.Reads) (hts : (classifyColumns host headers).tsCol = some ts) :
    NoVolts host (probeRecord headers ts header "") (classifyColumns host headers).voltCols := by
  intro x hx
  obtain ⟨hmem, hne⟩ := mem_voltCols hx
  have hne : x.1 ≠ ts := fun heq => hne (heq ▸ hts)
  rw [probeRecord, cell_probe ts header "" hmem, probe, if_neg hne, ite_self, num_blank reads]
  rfl

/-- The number in a sensitive column is read where the column is taken for the frequency. -/
theorem recordRows_frequency (reads : host.Reads)
    (hts : (classifyColumns host headers).tsCol = some ts) (hsensitive : Sensitive host headers header)
    (hfreq : (classifyColumns host headers).freqCol = some header) :
    recordRows host ts (classifyColumns host headers) (probeRecord headers ts header "50") ≠
      recordRows host ts (classifyColumns host headers) (probeRecord headers ts header "") := by
  have hmem : header ∈ headers := List.mem_of_find?_eq_some hfreq
  have hne : header ≠ ts := fun heq => hsensitive.2 (heq ▸ hts)
  have hcell : ∀ text, cell (probeRecord headers ts header text) header = some text := by
    intro text
    rw [probeRecord, cell_probe ts header text hmem, probe, if_neg hne, if_pos rfl]
  have hfifty : inFreqBand (num host (some "50")) = some (.fin 50) := by
    rw [num_fifty reads]
    rfl
  have hblank : inFreqBand (num host (some "")) = none := by
    rw [num_blank reads]
    rfl
  obtain ⟨iso, hiso⟩ := toIsoZ_probe reads hts header
  simp only [recordRows, hiso, hfreq, Option.bind_some, hcell, hfifty, hblank]
  by_cases hnone : (classifyColumns host headers).voltCols = []
  · simp [hnone]
  · rw [if_neg hnone, if_neg hnone, (noVolts_blank reads hts).rows_nil iso]
    cases hcols : (classifyColumns host headers).voltCols with
    | nil => exact absurd hcols hnone
    | cons x cols => simp [voltRows]

/-- The number in a sensitive column is read where the column is taken for a voltage. -/
theorem recordRows_voltage (reads : host.Reads)
    (hts : (classifyColumns host headers).tsCol = some ts) (hmem : header ∈ headers)
    (hsensitive : Sensitive host headers header) (hvolt : matchTokens host header voltTokens)
    (hfreq : ¬matchTokens host header freqTokens) :
    recordRows host ts (classifyColumns host headers) (probeRecord headers ts header "50") ≠
      recordRows host ts (classifyColumns host headers) (probeRecord headers ts header "") := by
  have hne : header ≠ ts := fun heq => hsensitive.2 (heq ▸ hts)
  have hcol : (header, phaseFor host header) ∈ (classifyColumns host headers).voltCols := by
    refine List.mem_map.mpr ⟨header, List.mem_filter.mpr ⟨hmem, ?_⟩, rfl⟩
    have hts' : some header ≠ headers.find? (matchTokens host · tsTokens) := Ne.symm hsensitive.2
    simp [hvolt, hfreq, hts']
  have hfifty : inVoltBand (num host (cell (probeRecord headers ts header "50") header)) =
      some (.fin 50) := by
    rw [probeRecord, cell_probe ts header "50" hmem, probe, if_neg hne, if_pos rfl, num_fifty reads]
    rfl
  have hcols : (classifyColumns host headers).voltCols ≠ [] := List.ne_nil_of_mem hcol
  obtain ⟨iso, hiso⟩ := toIsoZ_probe reads hts header
  simp only [recordRows, hiso, if_neg hcols]
  intro heq
  obtain ⟨f, hr⟩ := voltRows_volt iso hcol hfifty
    ((classifyColumns host headers).freqCol.bind fun col =>
      inFreqBand (num host (cell (probeRecord headers ts header "50") col)))
  rw [heq] at hr
  have hnone := (noVolts_blank reads hts).rows iso _ _ hr
  cases hnone

theorem probe_sameElsewhere (ts : String) (hsensitive : Sensitive host headers header) :
    SameElsewhere host headers (headers.map (probe ts header "50"))
      (headers.map (probe ts header "")) := by
  refine ⟨by rw [List.length_map, List.length_map], fun i hplain => ?_⟩
  rw [List.getElem?_map, List.getElem?_map]
  cases hname : headers[i]? with
  | none => rfl
  | some name =>
    have hne : name ≠ header := fun heq => hplain name hname (heq ▸ hsensitive)
    rw [Option.map_some, Option.map_some, probe, probe, if_neg hne, if_neg hne]

end Probe

/-- Files that differ in the cells of current and power only have the same rows, exactly where no such
column is recognised as frequency or as voltage. -/
theorem rowsOf_same_iff (host : ParserHost) (reads : host.Reads) (headers : List String) :
    (∀ rows rows', List.Forall₂ (SameElsewhere host headers) rows rows' →
        rowsOf host headers rows = rowsOf host headers rows') ↔
      ((classifyColumns host headers).tsCol ≠ none → Guarded host headers) := by
  constructor
  · intro hsame hts header hmem hsensitive
    obtain ⟨ts, hts⟩ := Option.ne_none_iff_exists'.mp hts
    have hlines := hsame _ _ (.cons (probe_sameElsewhere ts hsensitive) .nil)
    have hnil : ∀ f : String → String, headers.map f ≠ [] := fun f hmap =>
      List.ne_nil_of_mem hmem (List.map_eq_nil_iff.mp hmap)
    simp only [rowsOf_eq, hts, Option.elim_some, List.flatMap_cons, List.flatMap_nil,
      List.append_nil, lineRows, if_neg (hnil _)] at hlines
    exact ⟨fun hfreq => recordRows_frequency reads hts hsensitive hfreq hlines, fun hvolt =>
      by_contra fun hfreq => recordRows_voltage reads hts hmem hsensitive hvolt hfreq hlines⟩
  · intro hguard rows rows' h
    cases hts : (classifyColumns host headers).tsCol with
    | none => rw [rowsOf_eq, rowsOf_eq, hts, Option.elim_none, Option.elim_none]
    | some ts => exact rowsOf_agree (hguard (by simp [hts])) h

end Wide

theorem ParserHost.ascii_reads : ParserHost.ascii.Reads :=
  ⟨by decide +kernel, by decide +kernel, by decide +kernel, by decide +kernel⟩

theorem rowsOf_same_iff_meter :
    (∀ rows rows', List.Forall₂ (SameElsewhere .ascii ["Time", "Volt L1", "Current L1"]) rows rows' →
        rowsOf .ascii ["Time", "Volt L1", "Current L1"] rows =
          rowsOf .ascii ["Time", "Volt L1", "Current L1"] rows') ∧
      Guarded .ascii ["Time", "Volt L1", "Current L1"] := by
  have hguard : Guarded .ascii ["Time", "Volt L1", "Current L1"] := by decide +kernel
  exact ⟨(rowsOf_same_iff .ascii ParserHost.ascii_reads _).mpr fun _ => hguard, hguard⟩

/-- The power of the first phase is named like its voltage, and staged as one. -/
theorem power_as_voltage :
    ¬∀ (host : ParserHost) (headers : List String) (rows rows' : List (List String)),
        List.Forall₂ (SameElsewhere host headers) rows rows' →
          rowsOf host headers rows = rowsOf host headers rows' := by
  intro h
  have hline : SameElsewhere .ascii ["Time", "Power V1"] ["2026-01-01T00:00:00Z", "100"]
      ["2026-01-01T00:00:00Z", "200"] := by
    refine ⟨rfl, fun i hplain => ?_⟩
    rcases i with _ | _ | i
    · rfl
    · exact absurd (by decide +kernel) (hplain "Power V1" rfl)
    · rfl
  have hvolts := congrArg (List.map (·.voltageV))
    (h .ascii ["Time", "Power V1"] _ _ (.cons hline .nil))
  revert hvolts
  decide +kernel

end GridWitness.Survey
