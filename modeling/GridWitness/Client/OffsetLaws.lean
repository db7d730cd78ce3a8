import Mathlib.Tactic.Linarith
import GridWitness.Client.Ntp
import GridWitness.Library.FixedPoint

namespace GridWitness.Client.Ntp

open Library FixedPoint

/-- One exchange with a server that knows the time: what the local clock is behind by, its reading at
the send, and how long each leg takes. -/
structure Trip where
  theta : ℚ
  t1 : ℚ
  forward : ℚ
  hold : ℚ
  back : ℚ
  forward_nonneg : 0 ≤ forward
  hold_nonneg : 0 ≤ hold
  back_nonneg : 0 ≤ back

namespace Trip

variable (x : Trip)

/-- The true time at which the server receives. -/
def received : ℚ := x.t1 + x.theta + x.forward

def transmitted : ℚ := x.received + x.hold

/-- The reading of the local clock as the reply comes in. -/
def t4 : ℚ := x.transmitted + x.back - x.theta

end Trip

/-- The seconds since 1900 of a point in time. -/
def ntpSeconds (t : ℚ) : ℚ := t + ntpUnixDelta

/-- A time the 64 bits of a stamp can hold, before they start again at zero. -/
def InEra (t : ℚ) : Prop := 0 ≤ ntpSeconds t ∧ ntpSeconds t < 2 ^ 32

instance (t : ℚ) : Decidable (InEra t) := inferInstanceAs (Decidable (_ ∧ _))

/-- The stamp of a time: whole seconds and a fraction, in 32 bits each. -/
def stamp (t : ℚ) : List UInt8 := bytes 4 (whole (ntpSeconds t)) ++ bytes 4 (fraction 32 (ntpSeconds t))

section Stamps

variable {t : ℚ}

theorem word_append {front bs back : List UInt8} {start : Nat} (hfront : front.length = start)
    (hbs : bs.length = 4) : word (front ++ (bs ++ back)) start = value bs := by
  rw [word, List.drop_left' hfront, List.take_left' hbs, value]

theorem value_whole (h : InEra t) : value (bytes 4 (whole (ntpSeconds t))) = whole (ntpSeconds t) := by
  refine value_bytes ((Nat.floor_lt h.1).mpr ?_)
  norm_num
  exact h.2

theorem value_fraction (t : ℚ) :
    value (bytes 4 (fraction 32 (ntpSeconds t))) = fraction 32 (ntpSeconds t) :=
  value_bytes (fraction_lt 32 _)

/-- What a stamp says of its time. -/
def stamped (t : ℚ) : ℚ := toSeconds (whole (ntpSeconds t)) (fraction 32 (ntpSeconds t))

theorem stamped_eq (t : ℚ) : stamped t = truncated 32 (ntpSeconds t) - ntpUnixDelta := by
  rw [stamped, toSeconds, truncated]
  push_cast
  ring

theorem stamped_le (h : InEra t) : stamped t ≤ t := by
  have hle := truncated_le 32 h.1
  rw [stamped_eq]
  rw [ntpSeconds] at hle ⊢
  linarith

theorem lt_stamped (h : InEra t) : t < stamped t + 1 / 2 ^ 32 := by
  have hlt := lt_truncated 32 h.1
  rw [stamped_eq]
  rw [ntpSeconds] at hlt ⊢
  linarith

end Stamps

/-- The four words after the header of a reply. -/
theorem words_append {header a b c d : List UInt8} (rest : List UInt8) (hheader : header.length = 32)
    (ha : a.length = 4) (hb : b.length = 4) (hc : c.length = 4) (hd : d.length = 4) :
    let data := header ++ (a ++ (b ++ (c ++ (d ++ rest))))
    word data 32 = value a ∧ word data 36 = value b ∧ word data 40 = value c ∧ word data 44 = value d := by
  refine ⟨word_append hheader ha, ?_, ?_, ?_⟩
  · rw [← List.append_assoc header, word_append (by simp [hheader, ha]) hb]
  · rw [← List.append_assoc header, ← List.append_assoc (header ++ a),
      word_append (by simp [hheader, ha, hb]) hc]
  · rw [← List.append_assoc header, ← List.append_assoc (header ++ a), ← List.append_assoc (header ++ a ++ b),
      word_append (by simp [hheader, ha, hb, hc]) hd]

/-- A reply is read as its two stamps say. -/
theorem parseOffset_stamps {header : List UInt8} {received transmitted : ℚ} (rest : List UInt8) (t1 t4 : ℚ)
    (hheader : header.length = 32) (hreceived : InEra received) (htransmitted : InEra transmitted) :
    parseOffset (header ++ stamp received ++ stamp transmitted ++ rest) t1 t4 =
      .ok (((stamped received - t1) + (stamped transmitted - t4)) / 2,
        (t4 - t1) - (stamped transmitted - stamped received)) := by
  have hlength : ¬(header ++ stamp received ++ stamp transmitted ++ rest).length < 48 := by
    simp only [List.length_append, hheader, stamp, length_bytes]
    omega
  rw [parseOffset, if_neg hlength]
  simp only [stamp, List.append_assoc]
  obtain ⟨h32, h36, h40, h44⟩ := words_append rest hheader
    (length_bytes 4 (whole (ntpSeconds received))) (length_bytes 4 (fraction 32 (ntpSeconds received)))
    (length_bytes 4 (whole (ntpSeconds transmitted))) (length_bytes 4 (fraction 32 (ntpSeconds transmitted)))
  rw [h32, h36, h40, h44, value_whole hreceived, value_whole htransmitted, value_fraction, value_fraction]
  rfl

/-- The offset is off by no more than half the delay and the unit of the last bit. -/
theorem stamped_offset (x : Trip) (hreceived : InEra x.received) (htransmitted : InEra x.transmitted) :
    |((stamped x.received - x.t1) + (stamped x.transmitted - x.t4)) / 2 - x.theta| ≤
      ((x.t4 - x.t1) - (stamped x.transmitted - stamped x.received)) / 2 + 1 / 2 ^ 32 := by
  have h2 := stamped_le hreceived
  have h2' := lt_stamped hreceived
  have h3 := stamped_le htransmitted
  have h3' := lt_stamped htransmitted
  have hforward := x.forward_nonneg
  have hback := x.back_nonneg
  generalize stamped x.received = t2 at *
  generalize stamped x.transmitted = t3 at *
  simp only [Trip.t4, Trip.transmitted, Trip.received] at *
  rw [abs_le]
  constructor <;> linarith

/-- The offset of a reply is off by no more than half its delay and the unit of the last bit, and one that
is accepted by no more than half a second and that unit. -/
theorem offset_bound (x : Trip) (header rest : List UInt8) (hheader : header.length = 32)
    (hreceived : InEra x.received) (htransmitted : InEra x.transmitted) :
    let data := header ++ stamp x.received ++ stamp x.transmitted ++ rest
    (∃ offset delay, parseOffset data x.t1 x.t4 = .ok (offset, delay) ∧
        |offset - x.theta| ≤ delay / 2 + 1 / 2 ^ 32) ∧
      ∀ offset, queryOne (.answered x.t1 data x.t4) = some offset → |offset - x.theta| ≤ 1 / 2 + 1 / 2 ^ 32 := by
  intro data
  have hparse := parseOffset_stamps rest x.t1 x.t4 hheader hreceived htransmitted
  have hbound := stamped_offset x hreceived htransmitted
  refine ⟨⟨_, _, hparse, hbound⟩, fun offset haccepted => ?_⟩
  simp only [queryOne, data, hparse] at haccepted
  split at haccepted
  · cases haccepted
  · next hdelay =>
    cases haccepted
    rw [not_or, not_lt, maxDelayS] at hdelay
    linarith [hdelay.1]

/-- A clock five seconds behind, and a reply that is slower on its way back. -/
def slowReply : Trip where
  theta := 5
  t1 := 1000
  forward := 1 / 10
  hold := 1 / 3
  back := 2 / 5
  forward_nonneg := by norm_num
  hold_nonneg := by norm_num
  back_nonneg := by norm_num

theorem offset_bound_slowReply :
    let data := List.replicate 32 0 ++ stamp slowReply.received ++ stamp slowReply.transmitted ++ []
    (∃ offset delay, parseOffset data slowReply.t1 slowReply.t4 = .ok (offset, delay) ∧
        |offset - slowReply.theta| ≤ delay / 2 + 1 / 2 ^ 32) ∧
      ∀ offset, queryOne (.answered slowReply.t1 data slowReply.t4) = some offset →
        |offset - slowReply.theta| ≤ 1 / 2 + 1 / 2 ^ 32 :=
  offset_bound slowReply (List.replicate 32 0) [] rfl (by decide +kernel) (by decide +kernel)

end GridWitness.Client.Ntp
