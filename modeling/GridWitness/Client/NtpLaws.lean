import GridWitness.Client.Ntp

namespace GridWitness.Client.Ntp

open Library

variable {wrong : String → Bool} {polls : Polls} {v : ℚ}

theorem filterMap_replies (polls : Polls) :
    (polls.map (·.2)).filterMap queryOne = (replies polls).map (·.2) := by
  induction polls with
  | nil => rfl
  | cons poll polls ih =>
    obtain ⟨server, poll⟩ := poll
    cases hquery : queryOne poll <;> simp_all [replies]

/-- What comes back comes from a correct server or from a wrong one. -/
theorem replies_perm (wrong : String → Bool) (polls : Polls) :
    ((replies polls).map (·.2)).Perm (wrongOffsets wrong polls ++ correctOffsets wrong polls) := by
  rw [wrongOffsets, correctOffsets, ← List.map_append]
  exact ((List.filter_append_perm _ _).symm).map _

variable (wrong) in
/-- With enough replies, and at least one, the offset is the median of them all. -/
theorem authoritativeOffset_eq {minResponses : Int} (hmin : minResponses ≤ (replies polls).length)
    (hsome : replies polls ≠ []) :
    ∃ v, Median.median (wrongOffsets wrong polls ++ correctOffsets wrong polls) = some v ∧
      authoritativeOffset minResponses (polls.map (·.2)) = .ok (some v) := by
  have hoffsets : ((replies polls).map (·.2)) ≠ [] := by simpa using hsome
  obtain ⟨v, hv⟩ := Option.isSome_iff_exists.mp (Median.median_isSome hoffsets)
  refine ⟨v, by rw [← Median.median_perm (replies_perm wrong polls), hv], ?_⟩
  have henough : ¬((((replies polls).map (·.2)).length : Int) < minResponses) := by
    rw [List.length_map]
    omega
  simp only [authoritativeOffset, filterMap_replies]
  rw [if_neg henough, hv]

/-- With at most one wrong reply, the offset is within the correct ones exactly where two correct servers
reply, or one does and no wrong one says otherwise. -/
theorem authoritativeOffset_between_iff (wrong : String → Bool) (polls : Polls) (minResponses : Int)
    (hmin : minResponses ≤ (replies polls).length) (hwrong : (wrongOffsets wrong polls).length ≤ 1) :
    (∃ v, authoritativeOffset minResponses (polls.map (·.2)) = .ok (some v) ∧
        Between (correctOffsets wrong polls) v) ↔
      2 ≤ (correctOffsets wrong polls).length ∨
        ∃ c, correctOffsets wrong polls = [c] ∧ ∀ w ∈ wrongOffsets wrong polls, w = c := by
  have hsome : ∀ {c : ℚ}, c ∈ correctOffsets wrong polls → replies polls ≠ [] := by
    intro c hc hnone
    simp [correctOffsets, hnone] at hc
  constructor
  · rintro ⟨v, hv, ⟨lo, hlo, hle⟩, hi, hhi, hge⟩
    obtain ⟨m, hm, hoffset⟩ := authoritativeOffset_eq wrong hmin (hsome hlo)
    obtain rfl : m = v := by
      rw [hoffset] at hv
      simpa using hv
    rcases hcorrect : correctOffsets wrong polls with _ | ⟨c, _ | ⟨c', rest⟩⟩
    · rw [hcorrect] at hlo
      cases hlo
    · -- the one correct offset is both bounds
      refine Or.inr ⟨c, rfl, fun w hw => ?_⟩
      obtain ⟨w', hw'⟩ := List.length_eq_one_iff.mp (le_antisymm hwrong (List.length_pos_of_mem hw))
      rw [hw', List.mem_singleton] at hw
      rw [hcorrect, List.mem_singleton] at hlo hhi
      rw [hcorrect, hw', List.singleton_append, Median.median_pair, Option.some.injEq] at hm
      subst hw hlo hhi
      linarith
    · exact Or.inl (by simp)
  · intro h
    have hmany : (wrongOffsets wrong polls).length < (correctOffsets wrong polls).length ∨
        ∃ c, correctOffsets wrong polls = [c] ∧ wrongOffsets wrong polls = [c] := by
      rcases h with hmany | ⟨c, hc, hsame⟩
      · exact Or.inl (by omega)
      · rcases hw : wrongOffsets wrong polls with _ | ⟨w, _ | ⟨w', rest⟩⟩
        · exact Or.inl (by simp [hc])
        · exact Or.inr ⟨c, hc, by rw [hsame w (by simp [hw])]⟩
        · simp [hw] at hwrong
    rcases hmany with hmany | ⟨c, hc, hw⟩
    · obtain ⟨c, hc⟩ := List.exists_mem_of_length_pos (Nat.zero_lt_of_lt hmany)
      obtain ⟨m, hm, hoffset⟩ := authoritativeOffset_eq wrong hmin (hsome hc)
      exact ⟨m, hoffset, Median.median_between hmany hm⟩
    · have hmem : c ∈ correctOffsets wrong polls := by simp [hc]
      obtain ⟨m, hm, hoffset⟩ := authoritativeOffset_eq wrong hmin (hsome hmem)
      rw [hc, hw, List.singleton_append, Median.median_pair, Option.some.injEq] at hm
      have hcm : c = m := by linarith
      exact ⟨m, hoffset, ⟨c, hmem, hcm.le⟩, c, hmem, hcm.ge⟩

/-- Where two correct servers reply and at most one wrong one does, the coordinator stamps with an offset
within the correct ones from then on, or it keeps the one it has. -/
theorem refreshNtp_between (offsetS : ℚ) (hwrong : (wrongOffsets wrong polls).length ≤ 1)
    (hmany : 2 ≤ (correctOffsets wrong polls).length) :
    ∃ v, refreshNtp offsetS (polls.map (·.2)) = .ok v ∧
      (v = offsetS ∨ Between (correctOffsets wrong polls) v) := by
  have hall := (replies_perm wrong polls).length_eq
  rw [List.length_map, List.length_append] at hall
  have hmin : minResponses ≤ (replies polls).length := by
    rw [minResponses]
    omega
  have hsome : replies polls ≠ [] := List.ne_nil_of_length_pos (by omega)
  obtain ⟨m, hm, hoffset⟩ := authoritativeOffset_eq wrong hmin hsome
  refine ⟨if maxPlausibleS < |m| then offsetS else m, by rw [refreshNtp, hoffset]; rfl, ?_⟩
  split
  · exact Or.inl rfl
  · exact Or.inr (Median.median_between (by omega) hm)

/-- A reply to an exchange that takes no time, at 1000 seconds of the local clock. -/
def prompt (stamp : List UInt8) : Poll :=
  .answered 1000 (List.replicate 32 0 ++ stamp ++ [0, 0, 0, 0] ++ stamp ++ [0, 0, 0, 0]) 1000

def threeReplies : Polls :=
  [("time.cloudflare.com", prompt [131, 170, 130, 104]), ("time.google.com", prompt [131, 170, 130, 104]),
   ("pool.ntp.org", prompt [131, 170, 130, 204])]

theorem authoritativeOffset_between_iff_threeReplies :
    (∃ v, authoritativeOffset 2 (threeReplies.map (·.2)) = .ok (some v) ∧
        Between (correctOffsets (· = "pool.ntp.org") threeReplies) v) ∧
      wrongOffsets (· = "pool.ntp.org") threeReplies = [100] := by
  refine ⟨(authoritativeOffset_between_iff _ threeReplies 2 ?_ ?_).mpr (Or.inl ?_), ?_⟩ <;> decide +kernel

/-- Of two replies a wrong one moves the clock by half of what it is wrong. -/
theorem two_replies_averaged :
    ¬∀ (wrong : String → Bool) (polls : Polls) (minResponses : Int),
        minResponses ≤ (replies polls).length → (wrongOffsets wrong polls).length ≤ 1 →
          ∃ v, authoritativeOffset minResponses (polls.map (·.2)) = .ok (some v) ∧
            Between (correctOffsets wrong polls) v := by
  intro h
  have hmin : (2 : Int) ≤ (replies threeReplies.tail).length := by decide +kernel
  obtain ⟨v, hv, -, hi, hhi, hle⟩ := h (· = "pool.ntp.org") threeReplies.tail 2 hmin (by decide +kernel)
  obtain ⟨m, hm, hoffset⟩ := authoritativeOffset_eq (· = "pool.ntp.org") hmin (by decide +kernel)
  have hwrong : wrongOffsets (· = "pool.ntp.org") threeReplies.tail = [100] := by decide +kernel
  have hcorrect : correctOffsets (· = "pool.ntp.org") threeReplies.tail = [0] := by decide +kernel
  rw [hwrong, hcorrect, List.singleton_append, Median.median_pair, Option.some.injEq] at hm
  rw [hcorrect, List.mem_singleton] at hhi
  have hsame : m = v := by
    rw [hoffset] at hv
    simpa using hv
  subst hsame hhi
  norm_num at hm
  linarith

end GridWitness.Client.Ntp
