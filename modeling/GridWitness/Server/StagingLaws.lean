import GridWitness.Server.Staging

namespace GridWitness.Server

open Library

namespace Deduper

variable (keyFields : List String)

theorem filterNew_unique_mem {d : Deduper} {rows : List Row} {r : Row}
    (h : r ∈ (d.filterNew keyFields rows).2.1) : r ∈ rows := by
  induction rows generalizing d with
  | nil => simp [filterNew] at h
  | cons a rows ih =>
    simp only [filterNew] at h
    split at h
    · exact List.mem_cons_of_mem _ (ih h)
    · rcases List.mem_cons.mp h with rfl | h
      · exact List.mem_cons_self
      · exact List.mem_cons_of_mem _ (ih h)

/-- A row is let through or counted as a duplicate. -/
theorem filterNew_sublist (d : Deduper) (rows : List Row) :
    (d.filterNew keyFields rows).2.1.Sublist rows ∧
      (d.filterNew keyFields rows).2.1.length + (d.filterNew keyFields rows).2.2 = rows.length := by
  induction rows generalizing d with
  | nil => exact ⟨.slnil, rfl⟩
  | cons r rows ih =>
    rw [filterNew]
    split
    · obtain ⟨hsub, hcount⟩ := ih d
      exact ⟨hsub.cons r, congrArg (· + 1) hcount⟩
    · next hnew =>
      obtain ⟨hsub, hcount⟩ := ih (d.push (dedupeKey keyFields r) hnew)
      exact ⟨hsub.cons_cons r, (Nat.add_right_comm _ 1 _).trans (congrArg (· + 1) hcount)⟩

/-- The window remembers only keys it knew before and keys of the rows it let through. -/
theorem filterNew_seen {d : Deduper} {rows : List Row} {k : List Cell}
    (h : k ∈ (d.filterNew keyFields rows).1.seen) :
    k ∈ d.seen ∨ ∃ r ∈ (d.filterNew keyFields rows).2.1, dedupeKey keyFields r = k := by
  induction rows generalizing d with
  | nil => exact Or.inl h
  | cons a rows ih =>
    simp only [filterNew] at h ⊢
    split
    · next hd =>
      rw [dif_pos hd] at h
      exact ih h
    · next hd =>
      rw [dif_neg hd] at h
      rcases ih h with hk | ⟨r, hr, heq⟩
      · rcases Window.mem_push hk with hk | rfl
        · exact Or.inl hk
        · exact Or.inr ⟨a, List.mem_cons_self, rfl⟩
      · exact Or.inr ⟨r, List.mem_cons_of_mem _ hr, heq⟩

/-- A row is let through, or its key was known, or an equal key was let through before it. -/
theorem filterNew_covers {d : Deduper} {rows : List Row} {r : Row} (h : r ∈ rows) :
    dedupeKey keyFields r ∈ d.seen ∨
      ∃ u ∈ (d.filterNew keyFields rows).2.1, dedupeKey keyFields u = dedupeKey keyFields r := by
  induction rows generalizing d with
  | nil => cases h
  | cons a rows ih =>
    simp only [filterNew]
    split
    · next hd =>
      rcases List.mem_cons.mp h with rfl | h
      · exact Or.inl hd
      · exact ih h
    · next hd =>
      rcases List.mem_cons.mp h with rfl | h
      · exact Or.inr ⟨r, List.mem_cons_self, rfl⟩
      · rcases ih (d := d.push (dedupeKey keyFields a) hd) h with hk | ⟨u, hu, heq⟩
        · rcases Window.mem_push hk with hk | hk
          · exact Or.inl hk
          · exact Or.inr ⟨a, List.mem_cons_self, hk.symm⟩
        · exact Or.inr ⟨u, List.mem_cons_of_mem _ hu, heq⟩

/-- The deduper lets through the rows that are fresh for a window of its size. -/
theorem filterNew_fresh {d : Deduper} {accepted : List (List Cell)} (hd : d.Holds accepted)
    (rows : List Row) :
    let key := dedupeKey keyFields
    (d.filterNew keyFields rows).2.1 = Window.fresh d.maxsize key accepted rows ∧
      (d.filterNew keyFields rows).1.maxsize = d.maxsize ∧
      (d.filterNew keyFields rows).1.Holds
        (accepted ++ (Window.fresh d.maxsize key accepted rows).map key) := by
  intro key
  induction rows generalizing d accepted with
  | nil => exact ⟨rfl, rfl, by simpa [filterNew, Window.fresh] using hd⟩
  | cons a rows ih =>
    have hseen : key a ∈ d.seen ↔ key a ∈ Window.lastN d.maxsize accepted := by rw [hd]
    simp only [filterNew, Window.fresh]
    split
    · next hmem =>
      rw [if_pos (hseen.mp hmem)]
      exact ih hd
    · next hmem =>
      rw [if_neg fun h => hmem (hseen.mpr h)]
      obtain ⟨hrows, hsize, hholds⟩ := ih (Window.push_holds hd _ hmem)
      refine ⟨?_, hsize, ?_⟩
      · rw [hrows, Window.push_maxsize]
      · simpa using hholds

end Deduper

namespace StagingTree

@[simp] theorem lines_appendLines (tree : StagingTree) (p q : StagingPath) (ls : List Line) :
    (tree.appendLines p ls).lines q = if q = p then tree.lines p ++ ls else tree.lines q := by
  simp only [appendLines, lines, Table.lookup_replaceRow]
  split <;> rfl

theorem mem_appendLines {tree : StagingTree} {p q : StagingPath} {ls : List Line} :
    q ∈ tree.appendLines p ls ↔ q = p ∨ q ∈ tree := AList.mem_insert _

end StagingTree

namespace StagingWriter

variable {rt : Runtime} {kind : Kind} {columns : List String} {tsField : String}

theorem paths_eq_some {rows : List Row} {located : List (StagingPath × Row)}
    (h : paths rt kind tsField rows = some located) :
    located.map (·.2) = rows ∧ ∀ x ∈ located, path rt kind tsField x.2 = some x.1 := by
  induction rows generalizing located with
  | nil =>
    cases h
    simp
  | cons r rows ih =>
    simp only [paths] at h
    split at h
    · next p ps hp hps =>
      cases h
      obtain ⟨hrows, hpaths⟩ := ih hps
      refine ⟨by simp [hrows], ?_⟩
      intro x hx
      rcases List.mem_cons.mp hx with rfl | hx
      · exact hp
      · exact hpaths x hx
    · cases h

theorem paths_isSome {rows : List Row} :
    (paths rt kind tsField rows).isSome ↔ ∀ r ∈ rows, (path rt kind tsField r).isSome := by
  induction rows with
  | nil => simp [paths]
  | cons r rows ih =>
    simp only [paths, List.forall_mem_cons, ← ih]
    cases path rt kind tsField r <;> cases paths rt kind tsField rows <;> simp

theorem located_filter {rows : List Row} {located : List (StagingPath × Row)}
    (h : paths rt kind tsField rows = some located) (p : StagingPath) :
    (located.filter (·.1 = p)).map (·.2) =
      rows.filter (path rt kind tsField · = some p) := by
  obtain ⟨hrows, hpaths⟩ := paths_eq_some h
  rw [← hrows, List.filter_map]
  congr 1
  apply List.filter_congr
  intro x hx
  simp [hpaths x hx]

theorem mem_output {tree : StagingTree} {p : StagingPath} {group : List Row} {l : Line}
    (h : l ∈ output columns tree p group) :
    l = header columns ∨ ∃ r ∈ group, csvLine columns r = l := by
  simp only [output] at h
  split at h
  · exact Or.inr (by simpa using h)
  · simpa using h

/-- An append, whether it completes or raises, only adds lines at the end of files: headers
and lines of rows of the groups it was given. -/
theorem appendBuckets_grows (columns : List String) (fault : Option AppendFault)
    (tree : StagingTree) (bs : List (StagingPath × List Row)) (p : StagingPath) :
    ∃ new, (appendBuckets columns tree fault bs).1.lines p = tree.lines p ++ new ∧
      ∀ l ∈ new, ∃ g, (p, g) ∈ bs ∧ (l = header columns ∨ ∃ r ∈ g, csvLine columns r = l) := by
  induction bs generalizing tree fault with
  | nil => exact ⟨[], by cases fault <;> simp [appendBuckets]⟩
  | cons b rest ih =>
    obtain ⟨q, g⟩ := b
    have here : ∀ l ∈ output columns tree q g, q = p → ∃ f, (p, f) ∈ (q, g) :: rest ∧
        (l = header columns ∨ ∃ r ∈ f, csvLine columns r = l) := by
      rintro l hl rfl
      exact ⟨g, List.mem_cons_self, mem_output hl⟩
    have there : ∀ fault', ∃ new,
        (appendBuckets columns (tree.appendLines q (output columns tree q g)) fault' rest).1.lines p
          = tree.lines p ++ new ∧
        ∀ l ∈ new, ∃ f, (p, f) ∈ (q, g) :: rest ∧
          (l = header columns ∨ ∃ r ∈ f, csvLine columns r = l) := by
      intro fault'
      obtain ⟨new, hnew, hall⟩ := ih fault' (tree.appendLines q (output columns tree q g))
      have hrest : ∀ l ∈ new, ∃ f, (p, f) ∈ (q, g) :: rest ∧
          (l = header columns ∨ ∃ r ∈ f, csvLine columns r = l) := by
        intro l hl
        obtain ⟨f, hf, hr⟩ := hall l hl
        exact ⟨f, List.mem_cons_of_mem _ hf, hr⟩
      rw [hnew, StagingTree.lines_appendLines]
      by_cases hq : p = q
      · subst hq
        refine ⟨output columns tree p g ++ new, by simp, ?_⟩
        intro l hl
        exact (List.mem_append.mp hl).elim (fun h => here l h rfl) (hrest l)
      · exact ⟨new, by simp [hq], hrest⟩
    match fault with
    | none => exact there none
    | some ⟨k + 1, written⟩ => exact there (some ⟨k, written⟩)
    | some ⟨0, none⟩ => exact ⟨[], by simp [appendBuckets]⟩
    | some ⟨0, some n⟩ =>
      simp only [appendBuckets, StagingTree.lines_appendLines]
      by_cases hq : p = q
      · subst hq
        exact ⟨_, by simp; rfl, fun l hl => here l (List.mem_of_mem_take hl) rfl⟩
      · exact ⟨[], by simp [hq]⟩

theorem path_kind {r : Row} {p : StagingPath} (h : path rt kind tsField r = some p) :
    p.kind = kind := by
  simp only [path] at h
  split at h
  · obtain ⟨dt, -, rfl⟩ := Option.map_eq_some_iff.mp h
    rfl
  · cases h

theorem append_grows (rt : Runtime) (kind : Kind) (columns : List String) (tsField : String)
    (fault : Option AppendFault) (tree : StagingTree) (rows : List Row) (p : StagingPath) :
    ∃ new, (append rt kind columns tsField fault tree rows).1.lines p = tree.lines p ++ new ∧
      ∀ l ∈ new, p.kind = kind ∧ (l = header columns ∨
        ∃ r ∈ rows, path rt kind tsField r = some p ∧ csvLine columns r = l) := by
  simp only [append]
  cases hloc : paths rt kind tsField rows with
  | none => exact ⟨[], by simp⟩
  | some located =>
    obtain ⟨new, hnew, hall⟩ := appendBuckets_grows columns fault tree
      (Bucket.mapGroups (·.map (·.2)) (Bucket.bucket (·.1) located)) p
    refine ⟨new, hnew, fun l hl => ?_⟩
    obtain ⟨g, hg, hl⟩ := hall l hl
    have hkind : p.kind = kind := by
      have hkeys := List.mem_map_of_mem (f := Prod.fst) hg
      rw [← Bucket.keys, Bucket.keys_mapGroups, Bucket.mem_keys_bucket] at hkeys
      obtain ⟨x, hx, rfl⟩ := hkeys
      exact path_kind ((paths_eq_some hloc).2 x hx)
    refine ⟨hkind, hl.imp_right ?_⟩
    rintro ⟨r, hr, hline⟩
    have hrows : r ∈ rows.filter (path rt kind tsField · = some p) := by
      obtain ⟨⟨q, f⟩, hf, heq⟩ := List.mem_map.mp hg
      obtain ⟨rfl, rfl⟩ := Prod.mk.inj heq
      rw [← located_filter hloc]
      rwa [Bucket.eq_filter_of_mem_bucket _ hf] at hr
    simp only [List.mem_filter, decide_eq_true_eq] at hrows
    exact ⟨r, hrows.1, hrows.2, hline⟩

/-- An append that completes is one that meets no fault. -/
theorem appendBuckets_completed {fault : Option AppendFault} {tree tree' : StagingTree}
    {bs : List (StagingPath × List Row)}
    (h : appendBuckets columns tree fault bs = (tree', true)) :
    appendBuckets columns tree none bs = (tree', true) := by
  induction bs generalizing tree fault with
  | nil => cases fault <;> simpa [appendBuckets] using h
  | cons b rest ih =>
    match fault with
    | none => exact h
    | some ⟨0, none⟩ => simp [appendBuckets] at h
    | some ⟨0, some n⟩ => simp [appendBuckets] at h
    | some ⟨k + 1, written⟩ => exact ih h

theorem appendBuckets_none (columns : List String) (tree : StagingTree)
    (bs : List (StagingPath × List Row)) : (appendBuckets columns tree none bs).2 = true := by
  induction bs generalizing tree with
  | nil => rfl
  | cons b rest ih => exact ih _

/-- A completed append adds to each file of a group its output, and leaves the others alone. -/
theorem appendBuckets_lines (columns : List String) (tree : StagingTree)
    {bs : List (StagingPath × List Row)}
    (hbs : (Bucket.keys bs).Nodup) (p : StagingPath) :
    (appendBuckets columns tree none bs).1.lines p =
        (if p ∈ Bucket.keys bs then tree.lines p ++ output columns tree p (Bucket.group p bs)
         else tree.lines p) ∧
      (p ∈ (appendBuckets columns tree none bs).1 ↔ p ∈ Bucket.keys bs ∨ p ∈ tree) := by
  induction bs generalizing tree with
  | nil => simp [appendBuckets, Bucket.keys]
  | cons b rest ih =>
    obtain ⟨q, g⟩ := b
    rw [Bucket.keys_cons, List.nodup_cons] at hbs
    obtain ⟨hlines, hmem⟩ := @ih (tree.appendLines q (output columns tree q g)) hbs.2
    simp only [appendBuckets, hlines, hmem, Bucket.keys_cons, List.mem_cons, Bucket.group,
      StagingTree.mem_appendLines, StagingTree.lines_appendLines]
    by_cases hp : p = q
    · subst hp
      simp [hbs.1]
    · simp [hp, Ne.symm hp, output, StagingTree.mem_appendLines]

theorem append_completed {fault : Option AppendFault} {tree : StagingTree} {rows : List Row}
    (h : (append rt kind columns tsField fault tree rows).2 = true) :
    (∀ r ∈ rows, (path rt kind tsField r).isSome) ∧
      append rt kind columns tsField fault tree rows =
        append rt kind columns tsField none tree rows := by
  simp only [append] at h ⊢
  cases hloc : paths rt kind tsField rows with
  | none => simp [hloc] at h
  | some located =>
    simp only [hloc] at h
    refine ⟨paths_isSome.mp (by simp [hloc]), ?_⟩
    have hpair : appendBuckets columns tree fault
        (Bucket.mapGroups (·.map (·.2)) (Bucket.bucket (·.1) located)) = (_, true) :=
      Prod.ext rfl h
    exact hpair.trans (appendBuckets_completed hpair).symm

/-- A completed append, file by file: the rows of the file in their order, under a header if
the file is new. -/
theorem append_lines {tree : StagingTree} {rows : List Row}
    (h : ∀ r ∈ rows, (path rt kind tsField r).isSome) (p : StagingPath) :
    let group := rows.filter (path rt kind tsField · = some p)
    let tree' := (append rt kind columns tsField none tree rows).1
    tree'.lines p =
        (if group = [] then tree.lines p else tree.lines p ++ output columns tree p group) ∧
      (p ∈ tree' ↔ group ≠ [] ∨ p ∈ tree) := by
  intro group tree'
  obtain ⟨located, hloc⟩ := Option.isSome_iff_exists.mp (paths_isSome.mpr h)
  have hgroup : Bucket.group p (Bucket.mapGroups (·.map (·.2)) (Bucket.bucket (·.1) located)) =
      group := by
    rw [Bucket.group_mapGroups _ rfl, Bucket.group_bucket, located_filter hloc]
  have hkeys : p ∈ Bucket.keys (Bucket.mapGroups (·.map (·.2)) (Bucket.bucket (·.1) located)) ↔
      group ≠ [] := by
    have hne : (located.filter (·.1 = p)).map (·.2) = group := located_filter hloc p
    rw [Bucket.keys_mapGroups, Bucket.mem_keys_bucket, ← hne]
    simp [List.filter_eq_nil_iff]
  have hnodup : (Bucket.keys (Bucket.mapGroups (fun g : List (StagingPath × Row) => g.map (·.2))
      (Bucket.bucket (·.1) located))).Nodup := by
    rw [Bucket.keys_mapGroups]
    exact Bucket.keys_bucket_nodup _ _
  obtain ⟨hlines, hmem⟩ := appendBuckets_lines columns tree hnodup p
  simp only [tree', append, hloc, hlines, hmem, hkeys, hgroup, and_true]
  by_cases hempty : group = []
  · rw [if_pos hempty, if_neg (not_not_intro hempty)]
  · rw [if_neg hempty, if_pos hempty]

end StagingWriter

end GridWitness.Server
