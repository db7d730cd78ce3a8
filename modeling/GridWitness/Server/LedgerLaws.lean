import GridWitness.Server.DedupeLaws

namespace GridWitness.Server

open Library

def stagingPath (rt : Runtime) (x : Kind × Row) : Option StagingPath :=
  StagingWriter.path rt x.1 x.1.tsField x.2

/-- The rows of a sequence that belong to one file, in their order. -/
def fileRows (rt : Runtime) (xs : List (Kind × Row)) (p : StagingPath) : List Row :=
  (xs.filter (stagingPath rt · = some p)).map (·.2)

/-- A file of rows: a header, and a line for each row. -/
def fileLines (kind : Kind) (rows : List Row) : List Line :=
  if rows = [] then [] else kind.header :: rows.map kind.csvLine

/-- The files hold exactly the rows of a sequence, each file its own in their order. -/
structure StagingTree.Files (rt : Runtime) (tree : StagingTree) (xs : List (Kind × Row)) : Prop where
  exist : ∀ p, p ∈ tree ↔ fileRows rt xs p ≠ []
  lines : ∀ p, tree.lines p = fileLines p.kind (fileRows rt xs p)

/-- The writer has staged exactly the rows of a sequence, and remembers their keys. -/
structure Exact (rt : Runtime) (w : StagingWriter) (xs : List (Kind × Row)) : Prop where
  size : w.dedupe.maxsize = dedupeSize
  holds : w.dedupe.Holds (xs.map rowKey)
  files : w.tree.Files rt xs

theorem fresh_exact (rt : Runtime) : Exact rt ⟨∅, StagingWriter.freshDeduper⟩ [] where
  size := rfl
  holds := Window.empty_holds _
  files := ⟨fun p => by simp [fileRows], fun p => by simp [fileRows, fileLines, StagingTree.lines]⟩

theorem fileRows_append (rt : Runtime) (xs ys : List (Kind × Row)) (p : StagingPath) :
    fileRows rt (xs ++ ys) p = fileRows rt xs p ++ fileRows rt ys p := by
  simp [fileRows]

theorem fileRows_map (rt : Runtime) (kind : Kind) (rows : List Row) (p : StagingPath) :
    fileRows rt (rows.map (kind, ·)) p =
      rows.filter (StagingWriter.path rt kind kind.tsField · = some p) := by
  rw [fileRows, List.filter_map, List.map_map]
  exact List.map_id _

section Write

variable {rt : Runtime} {kind : Kind} {fault : Option AppendFault} {w : StagingWriter}
  {xs : List (Kind × Row)} {rows : List Row}

/-- A completed append adds its rows to the files. -/
theorem append_files {tree : StagingTree} (h : tree.Files rt xs)
    (hpaths : ∀ r ∈ rows, (StagingWriter.path rt kind kind.tsField r).isSome) :
    (StagingWriter.append rt kind kind.columns kind.tsField none tree rows).1.Files rt
      (xs ++ rows.map (kind, ·)) := by
  have hstep := @StagingWriter.append_lines rt kind kind.columns kind.tsField tree rows hpaths
  constructor
  · intro p
    rw [(hstep p).2, h.exist, fileRows_append, fileRows_map]
    simp only [ne_eq, List.append_eq_nil_iff, not_and_or, or_comm]
  · intro p
    rw [(hstep p).1, h.lines, fileRows_append, fileRows_map]
    by_cases hgroup : rows.filter (StagingWriter.path rt kind kind.tsField · = some p) = []
    · rw [if_pos hgroup, hgroup, List.append_nil]
    · obtain ⟨r, hr⟩ := List.exists_mem_of_ne_nil _ hgroup
      have hkind : p.kind = kind :=
        StagingWriter.path_kind (by simpa using (List.mem_filter.mp hr).2)
      rw [if_neg hgroup, StagingWriter.output, hkind]
      by_cases hold : fileRows rt xs p = []
      · rw [if_neg (by rw [h.exist, hold]; exact not_not_intro rfl), fileLines, fileLines, hold,
          if_pos rfl, List.nil_append, List.nil_append, if_neg hgroup]
        rfl
      · rw [if_pos ((h.exist p).mpr hold), fileLines, fileLines, if_neg hold,
          if_neg (List.append_ne_nil_of_left_ne_nil hold _), List.map_append, List.cons_append]
        rfl

/-- A completed write stages the rows the dedupe window lets through, in order. -/
theorem write_exact (hw : Exact rt w xs)
    (h : (StagingWriter.writeKind rt kind fault w rows).2.isSome) :
    Exact rt (StagingWriter.writeKind rt kind fault w rows).1
      (xs ++ (Window.fresh dedupeSize (dedupeKey kind.keyFields) (xs.map rowKey) rows).map (kind, ·)) := by
  obtain ⟨hunique, hsize, hholds⟩ := Deduper.filterNew_fresh kind.keyFields hw.holds rows
  rw [hw.size] at hunique hholds
  have hdone : (StagingWriter.append rt kind kind.columns kind.tsField fault w.tree
      (w.dedupe.filterNew kind.keyFields rows).2.1).2 = true := by
    by_contra hfail
    simp [StagingWriter.writeKind, StagingWriter.write, hfail] at h
  obtain ⟨hpaths, hsame⟩ := StagingWriter.append_completed hdone
  have hfiles := append_files hw.files hpaths
  rw [hunique] at hfiles hsame
  refine ⟨hsize.trans hw.size, ?_, ?_⟩
  · rw [List.map_append, List.map_map]
    exact hholds
  · simp only [StagingWriter.writeKind, StagingWriter.write, hunique, hsame]
    exact hfiles

/-- A write whose rows all have a file completes. -/
theorem writeKind_completes (kind : Kind) (w : StagingWriter)
    (hpaths : ∀ r ∈ rows, (StagingWriter.path rt kind kind.tsField r).isSome) :
    (StagingWriter.writeKind rt kind none w rows).2.isSome := by
  have hunique : ∀ r ∈ (w.dedupe.filterNew kind.keyFields rows).2.1,
      (StagingWriter.path rt kind kind.tsField r).isSome := fun r hr =>
    hpaths r (Deduper.filterNew_unique_mem _ hr)
  obtain ⟨located, hlocated⟩ := Option.isSome_iff_exists.mp
    (StagingWriter.paths_isSome.mpr hunique)
  simp only [StagingWriter.writeKind, StagingWriter.write, StagingWriter.append, hlocated]
  rw [StagingWriter.appendBuckets_none]
  rfl

/-- Rows with new and distinct keys are all staged. -/
theorem write_exact_new (hw : Exact rt w xs)
    (hpaths : ∀ r ∈ rows, (StagingWriter.path rt kind kind.tsField r).isSome)
    (hnew : ((xs ++ rows.map (kind, ·)).map rowKey).Nodup) :
    Exact rt (StagingWriter.writeKind rt kind none w rows).1 (xs ++ rows.map (kind, ·)) := by
  have hkeys : (xs.map rowKey ++ rows.map (dedupeKey kind.keyFields)).Nodup := by
    rw [List.map_append, List.map_map] at hnew
    exact hnew
  have hexact := write_exact hw (writeKind_completes kind w hpaths)
  rwa [Window.fresh_of_nodup dedupeSize (dedupeKey kind.keyFields) hkeys] at hexact

/-- While the window forgets nothing, the rows staged are those of a new key. -/
theorem write_exact_filter (hw : Exact rt w xs)
    (hpaths : ∀ r ∈ rows, (StagingWriter.path rt kind kind.tsField r).isSome)
    (hkeys : ((rows.map (kind, ·)).map rowKey).Nodup)
    (hroom : xs.length + ((rows.map (kind, ·)).filter (rowKey · ∉ xs.map rowKey)).length ≤
      dedupeSize) :
    Exact rt (StagingWriter.writeKind rt kind none w rows).1
      (xs ++ (rows.map (kind, ·)).filter (rowKey · ∉ xs.map rowKey)) := by
  have hfresh : Window.fresh dedupeSize (dedupeKey kind.keyFields) (xs.map rowKey) rows =
      rows.filter fun r => rowKey (kind, r) ∉ xs.map rowKey := by
    refine Window.fresh_eq_filter dedupeSize (dedupeKey kind.keyFields)
      (fun r _ => decide_eq_true_iff) (by rwa [List.map_map] at hkeys) ?_
    rw [List.filter_map, List.length_map] at hroom
    rw [List.length_map]
    exact hroom
  have hexact := write_exact hw (writeKind_completes kind w hpaths)
  rw [hfresh] at hexact
  rw [List.filter_map]
  exact hexact

end Write

section Both

/-- The rows of a kind, of a sequence of both. -/
def ofKind (kind : Kind) (ys : List (Kind × Row)) : List Row := (ys.filter (·.1 = kind)).map (·.2)

/-- The order a request is written in: its electrical rows, then its weather rows. -/
def byKind (ys : List (Kind × Row)) : List (Kind × Row) :=
  ys.filter (·.1 = .electrical) ++ ys.filter (·.1 = .weather)

theorem ofKind_map (kind : Kind) (ys : List (Kind × Row)) :
    (ofKind kind ys).map (kind, ·) = ys.filter (·.1 = kind) := by
  rw [ofKind, List.map_map]
  refine (List.map_congr_left fun y hy => ?_).trans (List.map_id _)
  have hkind : y.1 = kind := by simpa using (List.mem_filter.mp hy).2
  rw [← hkind]
  rfl

theorem byKind_perm (ys : List (Kind × Row)) : (byKind ys).Perm ys := by
  have hweather : ys.filter (·.1 = .weather) = ys.filter fun y => !decide (y.1 = .electrical) := by
    refine List.filter_congr fun y _ => ?_
    cases y.1 <;> rfl
  rw [byKind, hweather]
  exact List.filter_append_perm _ ys

theorem byKind_filter (kind : Kind) (ys : List (Kind × Row)) :
    (byKind ys).filter (·.1 = kind) = ys.filter (·.1 = kind) := by
  have hself : ∀ k : Kind, (ys.filter (·.1 = k)).filter (·.1 = k) = ys.filter (·.1 = k) :=
    fun k => by simp [List.filter_filter]
  have hother : ∀ k k' : Kind, k ≠ k' → (ys.filter (·.1 = k)).filter (·.1 = k') = [] := by
    intro k k' hne
    rw [List.filter_eq_nil_iff]
    intro y hy hkind
    have hk : y.1 = k := by simpa using (List.mem_filter.mp hy).2
    exact hne (hk.symm.trans (by simpa using hkind))
  rw [byKind, List.filter_append]
  cases kind with
  | electrical => rw [hself, hother _ _ (by decide), List.append_nil]
  | weather => rw [hself, hother _ _ (by decide), List.nil_append]

theorem filter_byKind (p : Kind × Row → Bool) (ys : List (Kind × Row)) :
    (byKind ys).filter p = byKind (ys.filter p) := by
  rw [byKind, byKind, List.filter_append, List.filter_comm p, List.filter_comm p]

/-- The two writes of a request stage its rows of a new key. -/
theorem writeBoth_exact {rt : Runtime} {w : StagingWriter} {xs ys : List (Kind × Row)}
    (hw : Exact rt w xs) (hpaths : ∀ y ∈ ys, (stagingPath rt y).isSome)
    (hkeys : (ys.map rowKey).Nodup)
    (hroom : xs.length + (ys.filter (rowKey · ∉ xs.map rowKey)).length ≤ dedupeSize) :
    let e := StagingWriter.writeKind rt .electrical none w (ofKind .electrical ys)
    let v := StagingWriter.writeKind rt .weather none e.1 (ofKind .weather ys)
    e.2.isSome ∧ v.2.isSome ∧ Exact rt v.1 (xs ++ byKind (ys.filter (rowKey · ∉ xs.map rowKey))) := by
  intro e v
  have hfile : ∀ kind, ∀ r ∈ ofKind kind ys,
      (StagingWriter.path rt kind kind.tsField r).isSome := by
    intro kind r hr
    obtain ⟨y, hmem, rfl⟩ := List.mem_map.mp hr
    obtain ⟨hy, hkind⟩ := List.mem_filter.mp hmem
    have hkind : y.1 = kind := by simpa using hkind
    exact hkind ▸ hpaths y hy
  have hdistinct : ∀ kind : Kind, ((ys.filter (·.1 = kind)).map rowKey).Nodup := fun kind =>
    hkeys.sublist (List.filter_sublist.map rowKey)
  have hcomm : ∀ kind : Kind, (ys.filter (·.1 = kind)).filter (rowKey · ∉ xs.map rowKey) =
      (ys.filter (rowKey · ∉ xs.map rowKey)).filter (·.1 = kind) := fun kind =>
    List.filter_comm _ _ ys
  have hlength := (byKind_perm (ys.filter (rowKey · ∉ xs.map rowKey))).length_eq
  rw [byKind, List.length_append] at hlength
  have helec : Exact rt e.1 (xs ++ (ys.filter (rowKey · ∉ xs.map rowKey)).filter (·.1 = .electrical)) := by
    have h := @write_exact_filter rt .electrical w xs (ofKind .electrical ys) hw (hfile _)
    rw [ofKind_map, hcomm] at h
    exact h (hdistinct _) (by omega)
  -- no electrical row has the key of a weather row
  have hlater : (ys.filter (·.1 = .weather)).filter (rowKey · ∉
      (xs ++ (ys.filter (rowKey · ∉ xs.map rowKey)).filter (·.1 = .electrical)).map rowKey) =
      (ys.filter (rowKey · ∉ xs.map rowKey)).filter (·.1 = .weather) := by
    refine (List.filter_congr fun y hy => ?_).trans (hcomm .weather)
    have hkind : y.1 = .weather := by simpa using (List.mem_filter.mp hy).2
    have hnone : rowKey y ∉
        ((ys.filter (rowKey · ∉ xs.map rowKey)).filter (·.1 = .electrical)).map rowKey := by
      intro hmem
      obtain ⟨z, hz, hkey⟩ := List.mem_map.mp hmem
      have hz : z.1 = .electrical := by simpa using (List.mem_filter.mp hz).2
      rw [← rowKey_kind hkey, hz] at hkind
      cases hkind
    simp only [List.map_append, List.mem_append, hnone, or_false]
  have hweather := @write_exact_filter rt .weather e.1 _ (ofKind .weather ys) helec (hfile _)
  rw [ofKind_map, hlater, List.append_assoc] at hweather
  exact ⟨writeKind_completes .electrical w (hfile _), writeKind_completes .weather e.1 (hfile _),
    hweather (hdistinct _) (by rw [List.length_append]; omega)⟩

end Both

end GridWitness.Server
