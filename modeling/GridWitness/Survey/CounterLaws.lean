import Mathlib.Data.List.Dedup
import GridWitness.Survey.FrequencyLaws

namespace GridWitness.Survey

open Library Server

instance (channel : String) (val : PyFloat) : Decidable (InBand channel val) :=
  inferInstanceAs (Decidable (_ ∨ _))

/-- The row a record of the long format gives its value to. -/
def contributedKey (host : ParserHost) (rec : Record) : Option (String × String) :=
  let r := longRecord host rec
  match toIsoZ host (cell r "timestamp"), num host (cell r "value") with
  | some iso, some val => if InBand (longChannel host r) val then some (iso, longPhase host r) else none
  | _, _ => none

namespace LoggerFile

variable (host : ParserHost)

def result : LoggerFile → ParseResult
  | .wide headers records => rowsFromRecords host records headers
  | .long records => rowsFromLong host records

def records : LoggerFile → List Record
  | .wide _ records => records
  | .long records => records

/-- There is a timestamp column, and one for a voltage or a frequency. -/
def Usable : LoggerFile → Prop
  | .wide headers _ => (classifyColumns host headers).tsCol.isSome ∧
      ((classifyColumns host headers).voltCols ≠ [] ∨ (classifyColumns host headers).freqCol.isSome)
  | .long _ => True

/-- The timestamp of a record reads, and it has a value in its band. -/
def Used : LoggerFile → Record → Prop
  | .wide headers _, rec => (recordStamp host headers rec).isSome ∧
      ((∃ x ∈ (classifyColumns host headers).voltCols, (inVoltBand (num host (cell rec x.1))).isSome) ∨
        (recordFreq host headers rec).isSome)
  | .long _, rec => (contributedKey host rec).isSome

instance : ∀ (file : LoggerFile) (rec : Record), Decidable (file.Used host rec)
  | .wide _ _, _ => inferInstanceAs (Decidable (_ ∧ _))
  | .long _, _ => inferInstanceAs (Decidable (_ = true))

/-- The counters say how many records were read, and how many of them were of no use. -/
structure Truthful (file : LoggerFile) : Prop where
  read : (file.result host).read = file.records.length
  dropped : (file.result host).dropped = file.records.countP fun rec => ¬file.Used host rec
  used : (file.result host).read - (file.result host).dropped = file.records.countP fun rec => file.Used host rec

/-- The records of the long format that are used have rows of their own. -/
def OwnRows : LoggerFile → Prop
  | .wide _ _ => True
  | .long records => (records.filterMap (contributedKey host)).Nodup

end LoggerFile

section Wide

variable {host : ParserHost} {headers : List String}

theorem voltRows_eq_nil_iff (iso : String) (rec : Record) (freq : Option PyFloat)
    {cols : List (String × String)} (hcols : cols ≠ []) :
    voltRows host iso rec freq cols = [] ↔
      (∀ x ∈ cols, inVoltBand (num host (cell rec x.1)) = none) ∧ freq = none := by
  induction cols generalizing freq with
  | nil => exact absurd rfl hcols
  | cons x cols ih =>
    obtain ⟨vcol, phase⟩ := x
    simp only [voltRows, List.forall_mem_cons]
    split
    · next hnone =>
      rcases cols with _ | ⟨y, cols⟩
      · simp [voltRows, hnone]
      · rw [ih none (List.cons_ne_nil y cols)]
        simp [hnone]
    · next hsome =>
      refine iff_of_false (List.cons_ne_nil _ _) ?_
      rintro ⟨⟨hv, -⟩, hfreq⟩
      exact hsome ⟨hv, hfreq⟩

/-- A record of the wide format gives a row exactly when it is used. -/
theorem recordRows_eq_nil_iff {ts : String} (hts : (classifyColumns host headers).tsCol = some ts)
    (records : List Record) (rec : Record) :
    recordRows host ts (classifyColumns host headers) rec = [] ↔
      ¬(LoggerFile.wide headers records).Used host rec := by
  have hstamp : recordStamp host headers rec = toIsoZ host (cell rec ts) := by
    rw [recordStamp, hts, Option.bind_some]
  simp only [recordRows, LoggerFile.Used, hstamp]
  split
  · next hnone => simp [hnone]
  · next iso hiso =>
    split
    · next hcols => simp [hiso, hcols, recordFreq]
    · next hcols =>
      rw [voltRows_eq_nil_iff iso rec _ hcols]
      simp [hiso, recordFreq]

theorem wide_counters {ts : String} (hts : (classifyColumns host headers).tsCol = some ts)
    (hcolumns : (classifyColumns host headers).voltCols ≠ [] ∨
      (classifyColumns host headers).freqCol.isSome) (records : List Record) :
    (rowsFromRecords host records headers).read = records.length ∧
      (rowsFromRecords host records headers).dropped =
        records.countP fun rec => ¬(LoggerFile.wide headers records).Used host rec := by
  have husable : ¬((classifyColumns host headers).voltCols = [] ∧
      (classifyColumns host headers).freqCol = none) := by
    rintro ⟨hvolt, hfreq⟩
    simp [hvolt, hfreq] at hcolumns
  simp only [rowsFromRecords, hts, if_neg husable, List.countP_map, true_and]
  refine List.countP_congr fun rec _ => ?_
  simp [recordRows_eq_nil_iff hts records rec]

end Wide

section Long

variable {host : ParserHost}

theorem contributedKey_eq_some {rec : Record} {key : String × String} :
    contributedKey host rec = some key ↔ Contributes host rec key := by
  simp only [contributedKey]
  split
  · next iso val hiso hval =>
    rw [contributes_iff hiso hval]
    split
    · next hband => simp [hband, eq_comm]
    · next hband => simp [hband]
  · next hnone =>
    refine iff_of_false (by simp) fun h => ?_
    obtain ⟨val, hval, -⟩ := h.valued
    exact hnone _ _ h.dated hval

variable (host) in
/-- The rows of the long format are the different rows its records give a value to. -/
theorem rowsFromLong_length (records : List Record) :
    (rowsFromLong host records).rows.length = (records.filterMap (contributedKey host)).dedup.length := by
  rw [← List.length_map ParsedRow.key]
  refine List.Perm.length_eq ((List.perm_ext_iff_of_nodup (rowsFromLong_keys records)
    (List.nodup_dedup _)).mpr fun key => ?_)
  rw [List.mem_dedup, List.mem_filterMap]
  constructor
  · intro hkey
    obtain ⟨row, hrow, rfl⟩ := List.mem_map.mp hkey
    obtain ⟨rec, hrec, hcontributes⟩ := (mem_rowsFromLong hrow).2
    exact ⟨rec, hrec, contributedKey_eq_some.mpr hcontributes⟩
  · rintro ⟨rec, hrec, hcontributes⟩
    obtain ⟨row, hrow, hkey⟩ := rowsFromLong_covers hrec (contributedKey_eq_some.mp hcontributes)
    exact List.mem_map.mpr ⟨row, hrow, hkey⟩

theorem long_dropped_iff (records : List Record) :
    ((rowsFromLong host records).dropped =
        records.countP fun rec => ¬(LoggerFile.long records).Used host rec) ↔
      (records.filterMap (contributedKey host)).Nodup := by
  have hused : (records.filterMap (contributedKey host)).length =
      records.countP fun rec => (LoggerFile.long records).Used host rec := by
    rw [List.length_filterMap_eq_countP]
    exact List.countP_congr fun rec _ => decide_eq_true_iff.symm
  have hsplit := List.length_eq_countP_add_countP (l := records) fun rec =>
    decide ((LoggerFile.long records).Used host rec)
  have hrows := rowsFromLong_length host records
  have hle := (List.dedup_sublist (records.filterMap (contributedKey host))).length_le
  have hdropped : (rowsFromLong host records).dropped =
      records.length - (rowsFromLong host records).rows.length := rfl
  simp only [decide_eq_true_eq] at hsplit
  constructor
  · intro h
    have hall : (records.filterMap (contributedKey host)).dedup = records.filterMap (contributedKey host) :=
      (List.dedup_sublist _).eq_of_length_le (by omega)
    exact List.dedup_eq_self.mp hall
  · intro h
    rw [List.dedup_eq_self.mpr h] at hrows
    omega

end Long

/-- The counters tell the truth in the wide format, and in the long format exactly where no two records
with a value in its band have the same timestamp and phase. -/
theorem counters_truthful_iff (host : ParserHost) (file : LoggerFile) (husable : file.Usable host) :
    file.Truthful host ↔ file.OwnRows host := by
  have hused : ∀ dropped, dropped = (file.records.countP fun rec => ¬file.Used host rec) →
      file.records.length - dropped = file.records.countP fun rec => file.Used host rec := by
    rintro dropped rfl
    have hsplit := List.length_eq_countP_add_countP (l := file.records) fun rec =>
      decide (file.Used host rec)
    simp only [decide_eq_true_eq] at hsplit
    omega
  cases file with
  | wide headers records =>
    obtain ⟨hts, hcolumns⟩ := husable
    obtain ⟨ts, hts⟩ := Option.isSome_iff_exists.mp hts
    obtain ⟨hread, hdropped⟩ := wide_counters hts hcolumns records
    exact iff_of_true ⟨hread, hdropped, hread ▸ hused _ hdropped⟩ trivial
  | long records =>
    rw [LoggerFile.OwnRows, ← long_dropped_iff]
    exact ⟨fun h => h.dropped, fun hdropped => ⟨rfl, hdropped, hused _ hdropped⟩⟩

/-- A line whose timestamp reads and one whose timestamp does not. -/
def undatedLine : LoggerFile :=
  .wide ["Time", "V1"] (logRecord ["Time", "V1"] ["2026-01-01T00:00:00Z", "230"] ++
    logRecord ["Time", "V1"] ["", "230"])

theorem counters_truthful_iff_undatedLine :
    undatedLine.Truthful .ascii ∧ (undatedLine.result .ascii).dropped = 1 := by
  have husable : undatedLine.Usable .ascii := by
    rw [undatedLine, LoggerFile.Usable]
    decide +kernel
  exact ⟨(counters_truthful_iff .ascii undatedLine husable).mpr trivial, by decide +kernel⟩

/-- A converted log with the voltage and the frequency of one moment. -/
def oneMoment : List Record :=
  logRecord longNames ["2026-01-01T00:00:00Z", "L1", "voltage", "230"] ++
    logRecord longNames ["2026-01-01T00:00:00Z", "L1", "frequency", "50"]

/-- Two records that are used make one row, and one of them counts as dropped. -/
theorem merged_record_dropped :
    ¬∀ (host : ParserHost) (file : LoggerFile), file.Usable host → file.Truthful host := by
  intro h
  have hdropped := (h .ascii (.long oneMoment) trivial).dropped
  revert hdropped
  decide +kernel

end GridWitness.Survey
