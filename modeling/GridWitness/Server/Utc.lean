import Mathlib.Tactic.Ring
import GridWitness.Library.Calendar
import GridWitness.Server.Runtime

namespace GridWitness.Server

open Library

/-- A day, in microseconds. -/
def dayMicros : Int := 86400000000

namespace DateTime

def toDate (dt : DateTime) : Date := ⟨dt.year, dt.month, dt.day⟩

/-- The time of the day, in microseconds. -/
def micros (dt : DateTime) : Nat :=
  ((dt.hour * 60 + dt.minute) * 60 + dt.second) * 1000000 + dt.microsecond

/-- The microseconds since 1 January 1970. -/
def instant (dt : DateTime) : Int := dt.toDate.number * dayMicros + dt.micros

/-- What Python's `datetime` can hold. -/
structure Valid (dt : DateTime) : Prop where
  date : dt.toDate.Valid
  year_pos : 1 ≤ dt.year
  year_le : dt.year ≤ 9999
  hour : dt.hour < 24
  minute : dt.minute < 60
  second : dt.second < 60
  microsecond : dt.microsecond < 1000000

/-- A time on a day, from its microseconds. -/
def ofMicros (d : Date) (micros : Nat) : DateTime :=
  ⟨d.year, d.month, d.day, micros / 3600000000, micros / 60000000 % 60, micros / 1000000 % 60,
    micros % 1000000⟩

theorem micros_ofMicros (d : Date) (n : Nat) : (ofMicros d n).micros = n := by
  simp only [ofMicros, micros]
  omega

theorem micros_lt {dt : DateTime} (h : dt.Valid) : (dt.micros : Int) < dayMicros := by
  have hhour := h.hour
  have hminute := h.minute
  have hsecond := h.second
  have hmicrosecond := h.microsecond
  simp only [micros, dayMicros]
  omega

end DateTime

/-- A text as `datetime.fromisoformat` reads it: a local time and its offset from UTC in microseconds,
which a naive one has not. -/
structure IsoTime where
  time : DateTime
  offset : Option Int
  valid : time.Valid
  small : ∀ o ∈ offset, -dayMicros < o ∧ o < dayMicros

namespace IsoTime

/-- The time of the local day once the offset is taken off, a naive time being read as UTC. -/
def shifted (t : IsoTime) : Int := t.time.micros - t.offset.getD 0

/-- The day it falls on in UTC. -/
def utcDate (t : IsoTime) : Date :=
  if t.shifted < 0 then t.time.toDate.prev
  else if dayMicros ≤ t.shifted then t.time.toDate.next
  else t.time.toDate

/-- `astimezone(timezone.utc)`, which raises beyond the years 1 to 9999. -/
def utc (t : IsoTime) : Option DateTime :=
  if 1 ≤ t.utcDate.year ∧ t.utcDate.year ≤ 9999 then
    some (.ofMicros t.utcDate (t.shifted % dayMicros).toNat)
  else none

theorem shifted_small (t : IsoTime) : -dayMicros < t.shifted ∧ t.shifted < 2 * dayMicros := by
  have hsmall : -dayMicros < t.offset.getD 0 ∧ t.offset.getD 0 < dayMicros := by
    cases hoffset : t.offset with
    | none => exact ⟨by decide, by decide⟩
    | some o => exact t.small o hoffset
  have hday := DateTime.micros_lt t.valid
  simp only [shifted, dayMicros] at *
  omega

/-- What the time of the day goes over or under, the day makes up for. -/
theorem utcDate_number (t : IsoTime) :
    t.utcDate.number * dayMicros + t.shifted % dayMicros =
      t.time.toDate.number * dayMicros + t.shifted := by
  have hsmall := t.shifted_small
  by_cases hneg : t.shifted < 0
  · have hmod : t.shifted % dayMicros = t.shifted + dayMicros := by
      simp only [dayMicros] at *
      omega
    rw [utcDate, if_pos hneg, Date.number_prev t.valid.date t.valid.year_pos, hmod]
    ring
  · by_cases hbig : dayMicros ≤ t.shifted
    · have hmod : t.shifted % dayMicros = t.shifted - dayMicros := by
        simp only [dayMicros] at *
        omega
      rw [utcDate, if_neg hneg, if_pos hbig, Date.number_next t.valid.date, hmod]
      ring
    · rw [utcDate, if_neg hneg, if_neg hbig, Int.emod_eq_of_lt (not_lt.mp hneg) (not_le.mp hbig)]

/-- The conversion to UTC takes the offset off and nothing else. -/
theorem utc_instant {t : IsoTime} {dt : DateTime} (h : t.utc = some dt) :
    dt.instant = t.time.instant - t.offset.getD 0 := by
  rw [utc] at h
  split at h
  · obtain rfl := Option.some.inj h
    have hmod : ((t.shifted % dayMicros).toNat : Int) = t.shifted % dayMicros :=
      Int.toNat_of_nonneg (Int.emod_nonneg _ (by decide))
    calc
      (DateTime.ofMicros t.utcDate (t.shifted % dayMicros).toNat).instant
          = t.utcDate.number * dayMicros + t.shifted % dayMicros := by
        rw [DateTime.instant, DateTime.micros_ofMicros, hmod]
        rfl
      _ = t.time.toDate.number * dayMicros + t.shifted := t.utcDate_number
      _ = t.time.instant - t.offset.getD 0 := by rw [DateTime.instant, shifted, add_sub_assoc]
  · cases h

end IsoTime

/-- `ts.replace("Z", "+00:00")`. -/
def replaceZ (ts : String) : String :=
  String.ofList (ts.toList.flatMap fun c => if c = 'Z' then "+00:00".toList else [c])

/-- `_parse_iso`, over what `datetime.fromisoformat` reads. -/
def parseIso (fromisoformat : String → Option IsoTime) (ts : String) : Option DateTime :=
  (fromisoformat (replaceZ ts)).bind IsoTime.utc

/-- A runtime whose timestamps are those of `datetime.fromisoformat`. -/
def Runtime.withIso (rt : Runtime) (fromisoformat : String → Option IsoTime) : Runtime :=
  { rt with parseIso := Server.parseIso fromisoformat }

end GridWitness.Server
