import GridWitness.Server.StagingLaws

namespace GridWitness.Server

open Library

namespace Deduper

/-- A call of `filter_new`. -/
structure Call where
  keyFields : List String
  rows : List Row

/-- The rows a call offers, each under its key. -/
def Call.offers (c : Call) : List (List Cell × Row) := c.rows.map fun r => (dedupeKey c.keyFields r, r)

/-- Calls in the order in which they take the lock, and what each of them returned. -/
def filterCalls (d : Deduper) : List Call → Deduper × List (List Row × Nat)
  | [] => (d, [])
  | c :: calls =>
    let (d, returned) := d.filterNew c.keyFields c.rows
    let (d, rest) := filterCalls d calls
    (d, returned :: rest)

/-- The log of one call. -/
abbrev Log := List (Window.Entry (List Cell) Row)

/-- What a call with a log returns. -/
def Log.returned (log : Log) : List Row × Nat :=
  ((log.filter (!·.dropped)).map (·.row), log.countP (·.dropped))

/-- Calls over a deduper have these logs: a row is dropped exactly when its key is among the last keys
accepted before it, in whichever call that was, and the keys remembered are the last ones accepted. -/
structure ExactWindow (maxsize : Nat) (calls : List Call) (after : Deduper × List (List Row × Nat))
    (logs : List Log) : Prop where
  offered : logs.map (·.map fun e => (e.key, e.row)) = calls.map Call.offers
  dropped : ∀ before e later, logs.flatten = before ++ e :: later →
    (e.dropped = true ↔ e.key ∈ Window.lastN maxsize (Window.acceptedKeys before))
  returned : after.2 = logs.map Log.returned
  remembered : after.1.seen = Window.lastN maxsize (Window.acceptedKeys logs.flatten)
  distinct : after.1.seen.Nodup

variable {d : Deduper} {accepted : List (List Cell)}

/-- One call returns what its log says. -/
theorem filterNew_log (c : Call) (hd : d.Holds accepted) :
    let log : Log := Window.judge d.maxsize accepted c.offers
    (d.filterNew c.keyFields c.rows).2 = log.returned ∧
      (d.filterNew c.keyFields c.rows).1.maxsize = d.maxsize ∧
      (d.filterNew c.keyFields c.rows).1.Holds (accepted ++ Window.acceptedKeys log) := by
  intro log
  obtain ⟨hunique, hsize, hholds⟩ := filterNew_fresh c.keyFields hd c.rows
  have hfresh : (log.filter (!·.dropped)).map (·.row) = (d.filterNew c.keyFields c.rows).2.1 := by
    rw [hunique]
    exact Window.judge_fresh d.maxsize _ accepted c.rows
  refine ⟨Prod.ext hfresh.symm ?_, hsize, ?_⟩
  · -- the rows of the log are all the rows of the call
    have hrows : log.length = c.rows.length := by
      have hoffers := congrArg List.length (Window.judge_offers d.maxsize accepted c.offers)
      rwa [List.length_map, Call.offers, List.length_map] at hoffers
    have hcount := (filterNew_sublist c.keyFields d c.rows).2
    have hsplit := List.length_eq_countP_add_countP (l := log) (·.dropped)
    have hkept := congrArg List.length hfresh
    rw [List.length_map, ← List.countP_eq_length_filter] at hkept
    simp only [Log.returned]
    simp only [Bool.not_eq_true, Bool.decide_eq_false] at hsplit
    omega
  · rw [show Window.acceptedKeys log = _ from Window.acceptedKeys_judge d.maxsize _ accepted c.rows]
    exact hholds

/-- The logs of calls, after some keys were accepted. -/
theorem filterCalls_logs (calls : List Call) (hd : d.Holds accepted) :
    ∃ logs : List Log, logs.map (·.map fun e => (e.key, e.row)) = calls.map Call.offers ∧
      logs.flatten = Window.judge d.maxsize accepted (calls.flatMap Call.offers) ∧
      (d.filterCalls calls).2 = logs.map Log.returned ∧
      (d.filterCalls calls).1.seen =
        Window.lastN d.maxsize (accepted ++ Window.acceptedKeys logs.flatten) := by
  induction calls generalizing d accepted with
  | nil => exact ⟨[], rfl, rfl, rfl, by simpa [filterCalls, Window.acceptedKeys, Window.Holds] using hd⟩
  | cons c calls ih =>
    obtain ⟨hreturned, hsize, hholds⟩ := filterNew_log c hd
    obtain ⟨logs, hoffered, hjudged, hrest, hseen⟩ := ih hholds
    rw [hsize] at hjudged hseen
    refine ⟨Window.judge d.maxsize accepted c.offers :: logs, ?_, ?_, ?_, ?_⟩
    · rw [List.map_cons, List.map_cons, hoffered, Window.judge_offers]
    · rw [List.flatten_cons, List.flatMap_cons, Window.judge_append, hjudged]
    · rw [filterCalls, List.map_cons, ← hrest, ← hreturned]
    · rw [List.flatten_cons, Window.acceptedKeys_append, ← List.append_assoc]
      exact hseen

theorem filterNew_append (keyFields : List String) (d : Deduper) (xs ys : List Row) :
    d.filterNew keyFields (xs ++ ys) =
      let first := d.filterNew keyFields xs
      let second := first.1.filterNew keyFields ys
      (second.1, first.2.1 ++ second.2.1, first.2.2 + second.2.2) := by
  induction xs generalizing d with
  | nil => simp [filterNew]
  | cons r xs ih =>
    simp only [List.cons_append, filterNew]
    split
    · rw [ih]
      simp only [Nat.add_right_comm]
    · rw [ih]
      rfl

/-- The deduper is a window over the accepted keys, over every sequence of calls, and a call with some
rows after others is two calls. -/
theorem filter_window (maxsize : Nat) (calls : List Call) :
    let after := filterCalls (Window.empty maxsize) calls
    (∃ logs, ExactWindow maxsize calls after logs) ∧
      ∀ (keyFields : List String) (xs ys : List Row),
        after.1.filterNew keyFields (xs ++ ys) =
          let first := after.1.filterNew keyFields xs
          let second := first.1.filterNew keyFields ys
          (second.1, first.2.1 ++ second.2.1, first.2.2 + second.2.2) := by
  intro after
  obtain ⟨logs, hoffered, hjudged, hreturned, hseen⟩ :=
    filterCalls_logs (d := Window.empty maxsize) calls (Window.empty_holds maxsize)
  refine ⟨⟨logs, hoffered, fun before e later hsplit => ?_, hreturned, hseen, after.1.nodup⟩,
    fun keyFields xs ys => filterNew_append keyFields after.1 xs ys⟩
  exact Window.judge_dropped maxsize (hjudged.symm.trans hsplit)

end Deduper

end GridWitness.Server
