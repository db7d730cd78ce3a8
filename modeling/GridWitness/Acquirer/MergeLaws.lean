import GridWitness.Acquirer.RunLaws
import GridWitness.Library.Keyed

namespace GridWitness.Acquirer

open Library Server Keyed

theorem keepLast_eq (kind : Kind) (rows : List FrameRow) :
    keepLast kind rows = Keyed.keepLast (·.key kind) rows := by
  induction rows with
  | nil => rfl
  | cons r rows ih => simp only [keepLast, Keyed.keepLast, ih]

theorem sortByKey_perm (kind : Kind) (rows : List FrameRow) : (sortByKey kind rows).Perm rows :=
  List.perm_insertionSort _ rows

section Merge

variable {kind : Kind} {new old payload prev : List FrameRow} {k : Key}

theorem fillFrom_eq (n : FrameRow) :
    fillFrom kind old n = (rowAt (·.key kind) old (n.key kind)).elim n (fill n) := by
  simp only [fillFrom, rowAt]
  cases old.find? (·.key kind = n.key kind) <;> rfl

theorem combineFirst_unique (hnew : UniqueKeys (·.key kind) new)
    (hold : UniqueKeys (·.key kind) old) : UniqueKeys (·.key kind) (combineFirst kind new old) := by
  have hkeys : (combineFirst kind new old).map (·.key kind) =
      new.map (·.key kind) ++
        (old.filter fun o => !new.any (·.key kind = o.key kind)).map (·.key kind) := by
    simp only [combineFirst, List.map_append, List.map_map]
    congr 1
    · exact List.map_congr_left fun n _ => key_fillFrom n
    · exact List.map_congr_left fun o _ => key_restrict o
  rw [UniqueKeys, hkeys]
  refine List.Nodup.append hnew (List.Nodup.sublist (List.filter_sublist.map _) hold) ?_
  intro k hk hk'
  obtain ⟨n, hn, rfl⟩ := List.mem_map.mp hk
  obtain ⟨o, ho, hkey⟩ := List.mem_map.mp hk'
  have hnone := (List.mem_filter.mp ho).2
  rw [Bool.not_eq_true', List.any_eq_false] at hnone
  exact hnone n hn (by simpa using hkey.symm)

/-- The merged row of a key: the new one filled from the old, or the old one alone. -/
theorem rowAt_combineFirst (hnew : UniqueKeys (·.key kind) new)
    (hold : UniqueKeys (·.key kind) old) (k : Key) :
    rowAt (·.key kind) (combineFirst kind new old) k =
      (rowAt (·.key kind) new k).elim ((rowAt (·.key kind) old k).map (restrict kind)) fun n =>
        some ((rowAt (·.key kind) old k).elim n (fill n)) := by
  have hmerged := combineFirst_unique hnew hold
  cases hn : rowAt (·.key kind) new k with
  | some n =>
    obtain ⟨hmem, rfl⟩ := mem_of_rowAt hn
    refine hmerged.rowAt.mpr ⟨?_, ?_⟩
    · rw [← fillFrom_eq]
      exact List.mem_append_left _ (List.mem_map_of_mem hmem)
    · rw [← fillFrom_eq]
      exact key_fillFrom n
  | none =>
    cases ho : rowAt (·.key kind) old k with
    | none =>
      rw [Option.elim_none, Option.map_none, rowAt_eq_none]
      intro r hr hkey
      rcases hasKey_combineFirst.mp ⟨r, hr, hkey⟩ with ⟨n, hn', hkey'⟩ | ⟨o, ho', hkey'⟩
      · exact rowAt_eq_none.mp hn n hn' hkey'
      · exact rowAt_eq_none.mp ho o ho' hkey'
    | some o =>
      obtain ⟨hmem, rfl⟩ := mem_of_rowAt ho
      refine hmerged.rowAt.mpr ⟨List.mem_append_right _ (List.mem_map_of_mem ?_), key_restrict o⟩
      refine List.mem_filter.mpr ⟨hmem, ?_⟩
      rw [Bool.not_eq_true', List.any_eq_false]
      intro n hn' hkey
      exact rowAt_eq_none.mp hn n hn' (by simpa using hkey)

theorem merge_unique (kind : Kind) (payload prev : List FrameRow) :
    UniqueKeys (·.key kind) (merge kind payload prev) := by
  rw [merge, keepLast_eq, keepLast_eq]
  exact combineFirst_unique (keepLast_unique _) (keepLast_unique _)

end Merge

end GridWitness.Acquirer
