import GridWitness.Survey.PhaseLaws

namespace GridWitness.Survey

open Library Server

/-- A file of a survey, in either format. -/
inductive LoggerFile
  | wide (headers : List String) (records : List Record)
  | long (records : List Record)

/-- A record of the long format gives a frequency in its band to a timestamp, under a phase. -/
structure GivesFrequency (host : ParserHost) (rec : Record) (key : String × String) : Prop where
  dated : toIsoZ host (cell (longRecord host rec) "timestamp") = some key.1
  phased : longPhase host (longRecord host rec) = key.2
  valued : ∃ val, num host (cell (longRecord host rec) "value") = some val ∧
    contains (longChannel host (longRecord host rec)) "freq" ∧ val.between 40 70

namespace LoggerFile

variable (host : ParserHost)

def rows : LoggerFile → List ParsedRow
  | .wide headers records => (rowsFromRecords host records headers).rows
  | .long records => (rowsFromLong host records).rows

/-- The file holds a frequency in its band at a timestamp. -/
def HoldsFrequency (iso : String) : LoggerFile → Prop
  | .wide headers records => ∃ rec ∈ records,
      recordStamp host headers rec = some iso ∧ (recordFreq host headers rec).isSome
  | .long records => ∃ rec ∈ records, ∃ phase, GivesFrequency host rec (iso, phase)

/-- The records of the wide format have timestamps of their own. -/
def DistinctStamps : LoggerFile → Prop
  | .wide headers records => (records.filterMap (recordStamp host headers)).Nodup
  | .long _ => True

/-- The frequencies of one timestamp of the long format have one phase. -/
def OnePhase : LoggerFile → Prop
  | .wide _ _ => True
  | .long records => ∀ rec ∈ records, ∀ rec' ∈ records, ∀ iso phase phase',
      GivesFrequency host rec (iso, phase) → GivesFrequency host rec' (iso, phase') → phase = phase'

/-- The rows of a timestamp that carry a frequency. -/
def carriers (iso : String) (file : LoggerFile) : List ParsedRow :=
  (file.rows host).filter fun row => row.tsUtc = iso ∧ row.frequencyHz.isSome

end LoggerFile

section Wide

variable {host : ParserHost} {headers : List String}

theorem voltRows_later (iso : String) (rec : Record) (cols : List (String × String)) :
    ∀ row ∈ voltRows host iso rec none cols, row.frequencyHz = none := by
  induction cols with
  | nil => exact fun _ h => absurd h List.not_mem_nil
  | cons x cols ih =>
    intro row h
    simp only [voltRows] at h
    split at h
    · exact ih row h
    · rcases List.mem_cons.mp h with rfl | h
      · rfl
      · exact ih row h

/-- A frequency has one row, the one of the first voltage column. -/
theorem voltRows_carriers (iso : String) (rec : Record) (f : PyFloat) {cols : List (String × String)}
    (hcols : cols ≠ []) :
    ((voltRows host iso rec (some f) cols).filter fun row =>
      row.tsUtc = iso ∧ row.frequencyHz.isSome).length = 1 := by
  cases cols with
  | nil => exact absurd rfl hcols
  | cons x cols =>
    have hlater : ∀ row ∈ voltRows host iso rec none cols, row.tsUtc = iso → row.frequencyHz = none :=
      fun row h _ => voltRows_later iso rec cols row h
    simpa [voltRows] using hlater

theorem recordRows_carriers {ts : String} (hts : (classifyColumns host headers).tsCol = some ts)
    {rec : Record} {iso : String} (hiso : recordStamp host headers rec = some iso)
    (hfreq : (recordFreq host headers rec).isSome) :
    ((recordRows host ts (classifyColumns host headers) rec).filter fun row =>
      row.tsUtc = iso ∧ row.frequencyHz.isSome).length = 1 := by
  obtain ⟨f, hf⟩ := Option.isSome_iff_exists.mp hfreq
  have hcell : toIsoZ host (cell rec ts) = some iso := by simpa [recordStamp, hts] using hiso
  rw [recordFreq] at hf
  simp only [recordRows, hcell, hf]
  split
  · simp
  · next hcols => exact voltRows_carriers iso rec f hcols

/-- In the wide format a frequency always has exactly one row. -/
theorem wide_carriers {records : List Record} {iso : String}
    (hstamps : (LoggerFile.wide headers records).DistinctStamps host)
    (h : (LoggerFile.wide headers records).HoldsFrequency host iso) :
    ((LoggerFile.wide headers records).carriers host iso).length = 1 := by
  obtain ⟨rec, hrec, hiso, hfreq⟩ := h
  obtain ⟨ts, hts, -⟩ := Option.bind_eq_some_iff.mp hiso
  obtain ⟨before, after, rfl⟩ := List.append_of_mem hrec
  -- the other records have other timestamps
  have hother : ∀ rec' ∈ before ++ after, recordStamp host headers rec' ≠ some iso := by
    intro rec' hrec' hsame
    have hapart := List.pairwise_filterMap.mp hstamps
    rw [List.pairwise_middle fun h b hb a ha => (h a ha b hb).symm] at hapart
    exact (List.pairwise_cons.mp hapart).1 rec' hrec' iso hiso iso hsame rfl
  have hnone : ∀ recs, recs ⊆ before ++ after →
      (recs.flatMap (recordRows host ts (classifyColumns host headers))).filter
        (fun row => row.tsUtc = iso ∧ row.frequencyHz.isSome) = [] := by
    intro recs hrecs
    refine List.filter_eq_nil_iff.mpr fun row hrow hcarrier => ?_
    obtain ⟨rec', hrec', hrow⟩ := List.mem_flatMap.mp hrow
    have hsame := (of_decide_eq_true hcarrier).1
    exact hother rec' (hrecs hrec') (hsame ▸ recordRows_stamp hts hrow)
  simp only [LoggerFile.carriers, LoggerFile.rows, rowsFromRecords_rows, hts, Option.elim_some,
    List.flatMap_append, List.flatMap_cons, List.filter_append, hnone before (List.subset_append_left _ _),
    hnone after (List.subset_append_right _ _), List.nil_append, List.append_nil]
  exact recordRows_carriers hts hiso hfreq

end Wide

section Long

variable {host : ParserHost}

/-- The rows grouped from some records that carry a frequency are those some record gives one to. -/
def CarriesGiven (host : ParserHost) (records : List Record) (grouped : Dict (String × String) ParsedRow) :
    Prop :=
  ∀ key, (∃ row, grouped.get key = some row ∧ row.frequencyHz.isSome) ↔
    ∃ rec ∈ records, GivesFrequency host rec key

theorem longUpdate_frequency (channel : String) (val : PyFloat) (row : ParsedRow) :
    (longUpdate channel val row).frequencyHz.isSome ↔
      row.frequencyHz.isSome ∨ contains channel "freq" ∧ val.between 40 70 := by
  simp only [longUpdate]
  split
  · next hfreq => simp [hfreq]
  · next hfreq =>
    simp only [hfreq, or_false]
    split <;> rfl

theorem givesFrequency_iff {rec : Record} {iso : String} {val : PyFloat}
    (hiso : toIsoZ host (cell (longRecord host rec) "timestamp") = some iso)
    (hval : num host (cell (longRecord host rec) "value") = some val) {key : String × String} :
    GivesFrequency host rec key ↔
      key = (iso, longPhase host (longRecord host rec)) ∧
        contains (longChannel host (longRecord host rec)) "freq" ∧ val.between 40 70 := by
  constructor
  · rintro ⟨hdated, hphased, val', hval', hband⟩
    obtain rfl : val = val' := Option.some.inj (hval.symm.trans hval')
    exact ⟨Prod.ext (Option.some.inj (hdated.symm.trans hiso)) hphased.symm, hband⟩
  · rintro ⟨rfl, hband⟩
    exact ⟨hiso, rfl, val, hval, hband⟩

theorem CarriesGiven.step {records : List Record} {grouped : Dict (String × String) ParsedRow}
    (h : CarriesGiven host records grouped) (rec : Record) :
    CarriesGiven host (records ++ [rec]) (longStep host grouped rec) := by
  intro key
  simp only [longStep, List.mem_append, List.mem_singleton, or_and_right, exists_or, exists_eq_left,
    ← h key]
  split
  · next iso val hiso hval =>
    rw [givesFrequency_iff hiso hval, Dict.get_alter]
    by_cases hkey : key = (iso, longPhase host (longRecord host rec))
    · rw [if_pos hkey, ← hkey]
      simp only [Option.some.injEq, exists_eq_left', true_and, longUpdate_frequency]
      cases grouped.get key with
      | none => simp
      | some row => simp
    · rw [if_neg hkey]
      simp [hkey]
  · next hnone =>
    have hrec : ¬GivesFrequency host rec key := by
      rintro ⟨hdated, -, val, hval, -⟩
      exact hnone _ _ hdated hval
    simp only [hrec, or_false]

theorem CarriesGiven.run {done : List Record} {grouped : Dict (String × String) ParsedRow}
    (h : CarriesGiven host done grouped) (records : List Record) :
    CarriesGiven host (done ++ records) (records.foldl (longStep host) grouped) := by
  induction records generalizing done grouped with
  | nil => simpa using h
  | cons rec records ih => simpa using ih (h.step rec)

theorem CarriesGiven.nil : CarriesGiven host [] [] := fun _ => by simp [Dict.get]

/-- The rows of the long format have keys of their own. -/
theorem rowsFromLong_keys (records : List Record) :
    ((rowsFromLong host records).rows.map ParsedRow.key).Nodup := by
  have hgrouped : Grouped host records _ := Grouped.nil.run records
  have hall : ((records.foldl (longStep host) []).map (·.2)).map ParsedRow.key =
      (records.foldl (longStep host) []).keys := by
    rw [List.map_map]
    exact List.map_congr_left fun x hx => hgrouped.keyed x.1 x.2 (Dict.get_of_mem hgrouped.nodup hx)
  exact (hall ▸ hgrouped.nodup).sublist (List.filter_sublist.map _)

/-- The rows of a timestamp that carry a frequency have different phases, and these are the phases a
frequency is given under. -/
theorem long_carriers (host : ParserHost) (records : List Record) (iso : String) :
    (((LoggerFile.long records).carriers host iso).map (·.phase)).Nodup ∧
      ∀ phase, phase ∈ ((LoggerFile.long records).carriers host iso).map (·.phase) ↔
        ∃ rec ∈ records, GivesFrequency host rec (iso, phase) := by
  have hgrouped : Grouped host records _ := Grouped.nil.run records
  have hcarries : CarriesGiven host records _ := CarriesGiven.nil.run records
  refine ⟨?_, fun phase => ?_⟩
  · have hsame : ((LoggerFile.long records).carriers host iso).map ParsedRow.key =
        (((LoggerFile.long records).carriers host iso).map (·.phase)).map (iso, ·) := by
      rw [List.map_map]
      refine List.map_congr_left fun row hrow => ?_
      obtain ⟨-, hcarrier⟩ := List.mem_filter.mp hrow
      rw [ParsedRow.key, (of_decide_eq_true hcarrier).1]
      rfl
    have hnodup : (((LoggerFile.long records).carriers host iso).map ParsedRow.key).Nodup :=
      (rowsFromLong_keys records).sublist (List.filter_sublist.map _)
    rw [hsame] at hnodup
    exact hnodup.of_map _
  · rw [← hcarries (iso, phase)]
    constructor
    · intro hphase
      obtain ⟨row, hcarried, rfl⟩ := List.mem_map.mp hphase
      obtain ⟨hrow, hcarrier⟩ := List.mem_filter.mp hcarried
      obtain ⟨rfl, hfreq⟩ := of_decide_eq_true hcarrier
      obtain ⟨hgroup, -⟩ := List.mem_filter.mp (show row ∈ (rowsFromLong host records).rows from hrow)
      obtain ⟨⟨key, row⟩, hitem, rfl⟩ := List.mem_map.mp hgroup
      have hget := Dict.get_of_mem hgrouped.nodup hitem
      exact ⟨row, by rw [← hget, hgrouped.keyed key row hget], hfreq⟩
    · rintro ⟨row, hget, hfreq⟩
      have hkey := hgrouped.keyed _ row hget
      refine List.mem_map.mpr ⟨row, List.mem_filter.mpr ⟨List.mem_filter.mpr ⟨?_, ?_⟩, ?_⟩, ?_⟩
      · exact List.mem_map.mpr ⟨_, Dict.mem_of_get hget, rfl⟩
      · simp [hfreq]
      · simp [hfreq, (Prod.mk.inj hkey).1]
      · exact (Prod.mk.inj hkey).2

end Long

def longNames : List String := ["timestamp", "phase", "channel", "value"]

def threePhases : LoggerFile :=
  .wide ["Time", "Hz", "V1", "V2", "V3"]
    (logRecord ["Time", "Hz", "V1", "V2", "V3"] ["2026-01-01T00:00:00Z", "50", "", "231", "232"])

/-- A converted log with the frequency of two phases. -/
def twoPhases : List Record :=
  logRecord longNames ["2026-01-01T00:00:00Z", "L1", "frequency", "50"] ++
    logRecord longNames ["2026-01-01T00:00:00Z", "L2", "frequency", "50"]

end GridWitness.Survey
