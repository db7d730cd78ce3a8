import GridWitness.Library.Calendar
import GridWitness.Library.Padded
import GridWitness.Survey.PhaseLaws

namespace GridWitness.Survey

open Library Server

/-- A second of the civil calendar, as a logger's clock has it. -/
structure Instant where
  date : Date
  hour : Nat
  minute : Nat
  second : Nat
  valid : date.Valid
  year_lt : date.year < 10000
  hour_lt : hour < 24
  minute_lt : minute < 60
  second_lt : second < 60

namespace Instant

def time (t : Instant) : List Nat := [t.hour, t.minute, t.second]

def fields (t : Instant) : List Nat := [t.date.year, t.date.month, t.date.day] ++ t.time

/-- The order of time, from the year down to the second. -/
def Before (t u : Instant) : Prop := t.fields < u.fields

instance (t u : Instant) : Decidable (t.Before u) := inferInstanceAs (Decidable (_ < _))

def dateTime (t : Instant) : DateTime :=
  ⟨t.date.year, t.date.month, t.date.day, t.hour, t.minute, t.second, 0⟩

/-- The instant a text of day and month is taken for: month first where that is a date, else day first. -/
def monthFirst (t : Instant) : Instant :=
  if h : (⟨t.date.year, t.date.day, t.date.month⟩ : Date).Valid then
    { t with date := ⟨t.date.year, t.date.day, t.date.month⟩, valid := h, year_lt := t.year_lt }
  else t

/-- Of two instants of one year, the readings keep the order. -/
def KeepsOrder (t u : Instant) : Prop :=
  t.date.year = u.date.year →
    (t.date.day ≤ 12 → u.date.day ≤ 12 → t.date.day ≤ u.date.day) ∧
    (t.date.day ≤ 12 → 12 < u.date.day → t.date.day ≤ u.date.month) ∧
    (12 < t.date.day → u.date.day ≤ 12 → t.date.month < u.date.day)

instance (t u : Instant) : Decidable (t.KeepsOrder u) := inferInstanceAs (Decidable (_ → _))

theorem before_iff {t u : Instant} :
    t.Before u ↔ t.date.year < u.date.year ∨ t.date.year = u.date.year ∧
      (t.date.month < u.date.month ∨ t.date.month = u.date.month ∧
        (t.date.day < u.date.day ∨ t.date.day = u.date.day ∧ t.time < u.time)) := by
  simp only [Before, fields, List.cons_append, List.nil_append, List.cons_lt_cons_iff]

/-- A day up to the twelfth is taken for a month. -/
theorem swap_valid {t : Instant} :
    (⟨t.date.year, t.date.day, t.date.month⟩ : Date).Valid ↔ t.date.day ≤ 12 := by
  refine ⟨fun h => h.month_le, fun h => ⟨t.valid.day_pos, h, t.valid.month_pos, ?_⟩⟩
  exact (t.valid.month_le.trans (by decide)).trans (Date.monthLength_pos t.date.year t.date.day).1

theorem monthFirst_of_le {t : Instant} (h : t.date.day ≤ 12) :
    t.monthFirst.date = ⟨t.date.year, t.date.day, t.date.month⟩ ∧ t.monthFirst.time = t.time := by
  rw [monthFirst, dif_pos (swap_valid.mpr h)]
  exact ⟨rfl, rfl⟩

theorem monthFirst_of_lt {t : Instant} (h : 12 < t.date.day) : t.monthFirst = t := by
  rw [monthFirst, dif_neg fun hvalid => absurd (swap_valid.mp hvalid) (Nat.not_le.mpr h)]

theorem monthFirst_before_iff {t u : Instant} (h : t.Before u) :
    t.monthFirst.Before u.monthFirst ↔ t.KeepsOrder u := by
  have htm := t.valid.month_le
  have hum := u.valid.month_le
  rw [before_iff] at h ⊢
  rw [KeepsOrder]
  rcases Nat.lt_or_ge 12 t.date.day with ht | ht
  · rw [monthFirst_of_lt ht]
    rcases Nat.lt_or_ge 12 u.date.day with hu | hu
    · rw [monthFirst_of_lt hu]
      exact iff_of_true h (by omega)
    · rw [(monthFirst_of_le hu).1]
      simp only
      omega
  · rw [(monthFirst_of_le ht).1, (monthFirst_of_le ht).2]
    rcases Nat.lt_or_ge 12 u.date.day with hu | hu
    · rw [monthFirst_of_lt hu]
      simp only
      omega
    · rw [(monthFirst_of_le hu).1, (monthFirst_of_le hu).2]
      simp only
      by_cases htime : t.time < u.time
      · simp only [htime, and_true] at h ⊢
        omega
      · simp only [htime, and_false, or_false] at h ⊢
        omega

end Instant

section Text

/-- The widths and separators of a UTC timestamp, down to the milliseconds. -/
def isoLayout : List (Nat × Char) :=
  [(4, '-'), (2, '-'), (2, 'T'), (2, ':'), (2, ':'), (2, '.'), (3, 'Z')]

theorem zeroPad_toList {w n : Nat} (hw : 0 < w) (h : n < 10 ^ w) :
    (zeroPad w n).toList = Padded.numeral w n := by
  rw [Padded.numeral_eq hw h, zeroPad, String.toList_append, String.toList_ofList, String.length,
    Nat.toString_eq_ofList_toDigits, String.toList_ofList]

theorem isoLayout_fits (t : Instant) : Padded.Fits isoLayout (t.fields ++ [0]) := by
  obtain ⟨hmonth, hmonth', hday, hday'⟩ := t.valid
  have hlength := (Date.monthLength_pos t.date.year t.date.month).2
  have hyear := t.year_lt
  have hhour := t.hour_lt
  have hminute := t.minute_lt
  have hsecond := t.second_lt
  simp only [isoLayout, Instant.fields, Instant.time, List.cons_append, List.nil_append,
    List.forall₂_cons, List.Forall₂.nil, Nat.reducePow, and_true]
  omega

theorem isoZ_toList (t : Instant) :
    (isoZ t.dateTime).toList = Padded.render isoLayout (t.fields ++ [0]) := by
  have hfits := isoLayout_fits t
  simp only [isoLayout, Instant.fields, Instant.time, List.cons_append, List.nil_append,
    List.forall₂_cons, List.forall₂_nil_left_iff] at hfits
  obtain ⟨hyear, hmonth, hday, hhour, hminute, hsecond, hmilli, -⟩ := hfits
  simp only [isoZ, DateTime.date, DateTime.hourName, Instant.dateTime, String.toList_append,
    zeroPad_toList (by decide) hyear, zeroPad_toList (by decide) hmonth, zeroPad_toList (by decide) hday,
    zeroPad_toList (by decide) hhour, zeroPad_toList (by decide) hminute,
    zeroPad_toList (by decide) hsecond, Nat.zero_div, zeroPad_toList (by decide) hmilli]
  simp [isoLayout, Instant.fields, Instant.time, Padded.render]

/-- The timestamps are in the order of time. -/
theorem isoZ_lt_iff (t u : Instant) : isoZ t.dateTime < isoZ u.dateTime ↔ t.Before u := by
  have hlength : t.fields.length = u.fields.length := rfl
  rw [String.lt_iff, isoZ_toList, isoZ_toList, Padded.render_lt_iff (isoLayout_fits t) (isoLayout_fits u),
    Padded.append_lt_append_iff _ _ hlength, Instant.Before]
  simp

end Text

/-- A host that takes a day and a month in one layout for month and day where that is a date, as pandas
does by default, and has no timestamps out of its bounds. -/
structure DefaultReading (host : ParserHost) (layout : Instant → String) (inBounds : Instant → Bool) :
    Prop where
  reads : ∀ t, host.toDatetime (some (layout t)) =
    if inBounds t.monthFirst then some t.monthFirst.dateTime else none

theorem pairwise_iff_of {α : Type} {R S T : α → α → Prop} {l : List α} (hl : l.Pairwise T)
    (h : ∀ {a b}, T a b → (R a b ↔ S a b)) : l.Pairwise R ↔ l.Pairwise S :=
  ⟨fun hR => hR.imp₂ (fun _ _ hr ht => (h ht).mp hr) hl, fun hS => hS.imp₂ (fun _ _ hs ht => (h ht).mpr hs) hl⟩

/-- The timestamps of a column. -/
def columnStamps (host : ParserHost) (layout : Instant → String) (instants : List Instant) : List String :=
  instants.filterMap fun t => toIsoZ host (some (layout t))

/-- The timestamps of the records of a column are those of its cells. -/
theorem columnStamps_records {host : ParserHost} {headers : List String} {ts : String}
    (hts : (classifyColumns host headers).tsCol = some ts) {layout : Instant → String}
    {instants : List Instant} {records : List Record}
    (hcells : records.map (cell · ts) = instants.map fun t => some (layout t)) :
    records.filterMap (recordStamp host headers) = columnStamps host layout instants := by
  have hrecords : records.filterMap (recordStamp host headers) =
      (records.map (cell · ts)).filterMap (toIsoZ host) := by
    rw [List.filterMap_map]
    refine List.filterMap_congr fun rec _ => ?_
    rw [recordStamp, hts, Option.bind_some, Function.comp_apply]
  rw [hrecords, hcells, List.filterMap_map, columnStamps]
  rfl

/-- The clock order of a column survives, exactly where no two instants of a year are read against it. -/
theorem clock_order_iff (host : ParserHost) (layout : Instant → String) (inBounds : Instant → Bool)
    (hreads : DefaultReading host layout inBounds) (instants : List Instant)
    (hincreasing : instants.Pairwise Instant.Before) :
    (columnStamps host layout instants).Pairwise (· < ·) ↔
      (instants.filter fun t => inBounds t.monthFirst).Pairwise Instant.KeepsOrder := by
  have hstamps : columnStamps host layout instants =
      (instants.filter fun t => inBounds t.monthFirst).map fun t => isoZ t.monthFirst.dateTime := by
    rw [columnStamps, ← List.filterMap_eq_map', List.filterMap_filter]
    refine List.filterMap_congr fun t _ => ?_
    rw [toIsoZ, hreads.reads]
    split <;> rfl
  rw [hstamps, List.pairwise_map]
  refine pairwise_iff_of (hincreasing.sublist List.filter_sublist) fun {t u} h => ?_
  rw [isoZ_lt_iff, Instant.monthFirst_before_iff h]

section Slashed

def slashLayout : List (Nat × Char) := [(2, '/'), (2, '/'), (4, ' '), (2, ':'), (2, ':')]

/-- `%d/%m/%Y %H:%M:%S`. -/
def Instant.slashed (t : Instant) : String :=
  String.ofList
    (Padded.render slashLayout [t.date.day, t.date.month, t.date.year, t.hour, t.minute] ++
      Padded.numeral 2 t.second)

/-- Read such a text month first where that is a date, else day first. -/
def readSlashed (text : String) : Option DateTime :=
  match Padded.read slashLayout text.toList with
  | some ([a, b, year, hour, minute], seconds) =>
    if (⟨year, a, b⟩ : Date).Valid then some ⟨year, a, b, hour, minute, Padded.value seconds, 0⟩
    else if (⟨year, b, a⟩ : Date).Valid then some ⟨year, b, a, hour, minute, Padded.value seconds, 0⟩
    else none
  | _ => none

def ParserHost.slashed : ParserHost := { ParserHost.ascii with toDatetime := fun value => value.bind readSlashed }

theorem slashed_reading : DefaultReading .slashed Instant.slashed fun _ => true where
  reads t := by
    have hfits : Padded.Fits slashLayout [t.date.day, t.date.month, t.date.year, t.hour, t.minute] := by
      have hfields := isoLayout_fits t
      simp only [isoLayout, Instant.fields, Instant.time, List.cons_append, List.nil_append, slashLayout,
        List.forall₂_cons, List.Forall₂.nil, and_true] at hfields ⊢
      omega
    have hsecond : t.second < 10 ^ 2 := t.second_lt.trans (by decide)
    have hread : ∀ text, ParserHost.slashed.toDatetime (some text) = readSlashed text := fun _ => rfl
    rw [hread, readSlashed, Instant.slashed, String.toList_ofList, Padded.read_render hfits]
    simp only [Padded.value_numeral hsecond, if_true]
    by_cases h : t.date.day ≤ 12
    · rw [if_pos (Instant.swap_valid.mpr h), Instant.monthFirst, dif_pos (Instant.swap_valid.mpr h)]
      rfl
    · rw [if_neg (Instant.swap_valid.not.mpr h), if_pos t.valid, Instant.monthFirst_of_lt (Nat.not_le.mp h)]
      rfl

/-- Midnight of a day. -/
def midnight (date : Date) (valid : date.Valid) (year_lt : date.year < 10000) : Instant :=
  ⟨date, 0, 0, 0, valid, year_lt, by decide, by decide, by decide⟩

/-- The fifth of March is taken for the third of May, which still lies between the days around it. -/
theorem clock_order_iff_lateDays :
    (columnStamps .slashed Instant.slashed
        [midnight ⟨2026, 1, 13⟩ (by decide) (by decide), midnight ⟨2026, 3, 5⟩ (by decide) (by decide),
          midnight ⟨2026, 5, 31⟩ (by decide) (by decide)]).Pairwise (· < ·) :=
  (clock_order_iff .slashed Instant.slashed (fun _ => true) slashed_reading _ (by decide)).mpr (by decide)

/-- The twelfth of January is taken for the first of December, the day after for itself. -/
theorem day_before_read_after :
    ¬∀ (host : ParserHost) (layout : Instant → String) (inBounds : Instant → Bool) (instants : List Instant),
        DefaultReading host layout inBounds → instants.Pairwise Instant.Before →
          (columnStamps host layout instants).Pairwise (· < ·) := by
  intro h
  have horder := h .slashed Instant.slashed (fun _ => true)
    [midnight ⟨2026, 1, 12⟩ (by decide) (by decide), midnight ⟨2026, 1, 13⟩ (by decide) (by decide)]
    slashed_reading (by decide)
  revert horder
  decide +kernel

end Slashed

end GridWitness.Survey
