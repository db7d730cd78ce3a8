import GridWitness.Server.LimiterLaws

namespace GridWitness.Server

open Library

namespace RateLimiter

variable {rowsPerMin : ℚ} {calls : List Call} {node : String}

/-- What the calls of a node are answered, in terms of its bucket alone. -/
theorem own_log (rowsPerMin : ℚ) (calls : List Call) (node : String) :
    (((new rowsPerMin).log calls).filter (·.nodeId = node)).map Entry.request =
      (TokenBucket.requests rowsPerMin (rowsPerMin / 60) none (asked node calls)).2 :=
  own_requests (new rowsPerMin) calls node

theorem own_request {j : Nat} {e : Entry}
    (hj : (((new rowsPerMin).log calls).filter (·.nodeId = node))[j]? = some e) :
    (TokenBucket.requests rowsPerMin (rowsPerMin / 60) none (asked node calls)).2[j]? = some e.request := by
  rw [← own_log, List.getElem?_map, hj, Option.map_some]

/-- A node that asks for 50 rows, then for 20 more with a reading taken before, and a minute later for as many
as it may; the readings of another node are out of order. -/
def patientNode : List Call := [⟨5, "n1", 50⟩, ⟨0, "n1", 20⟩, ⟨90, "n2", 60⟩, ⟨65, "n1", 60⟩]

end RateLimiter

end GridWitness.Server
