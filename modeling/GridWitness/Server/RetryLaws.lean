import GridWitness.Server.DedupeLaws

namespace GridWitness.Server

open Library

namespace StagingWriter

/-- The rows of an append that a fault keeps from their files. -/
def unwritten (columns : List String) (tree : StagingTree) :
    Option AppendFault → List (StagingPath × List Row) → List Row
  | none, _ => []
  | some _, [] => []
  | some ⟨0, none⟩, bs => bs.flatMap (·.2)
  | some ⟨0, some n⟩, (p, group) :: rest =>
    group.drop (if p ∈ tree then n else n - 1) ++ rest.flatMap (·.2)
  | some ⟨k + 1, written⟩, (p, group) :: rest =>
    unwritten columns (tree.appendLines p (output columns tree p group)) (some ⟨k, written⟩) rest

/-- The rows let through that a write does not bring into a file: all of them when a timestamp
does not parse, else those behind the fault. -/
def lostRows (rt : Runtime) (kind : Kind) (fault : Option AppendFault) (w : StagingWriter)
    (rows : List Row) : List Row :=
  let unique := (w.dedupe.filterNew kind.keyFields rows).2.1
  match paths rt kind kind.tsField unique with
  | none => unique
  | some located =>
    unwritten kind.columns w.tree fault
      (Bucket.mapGroups (·.map (·.2)) (Bucket.bucket (·.1) located))

theorem mem_drop_or_output {columns : List String} {tree : StagingTree} {p : StagingPath}
    {g : List Row} {r : Row} (n : Nat) (hr : r ∈ g) :
    r ∈ g.drop (if p ∈ tree then n else n - 1) ∨
      csvLine columns r ∈ (output columns tree p g).take n := by
  have hsplit : ∀ m, r ∈ g.drop m ∨ csvLine columns r ∈ (g.map (csvLine columns)).take m := by
    intro m
    rw [← List.take_append_drop m g] at hr
    refine (List.mem_append.mp hr).symm.imp_right fun h => ?_
    rw [← List.map_take]
    exact List.mem_map_of_mem h
  simp only [output]
  split
  · exact hsplit n
  · cases n with
    | zero => exact Or.inl hr
    | succ n => exact (hsplit n).imp_right (List.mem_cons_of_mem _)

/-- A row of a group is unwritten or has its line in the file. -/
theorem mem_unwritten_or_lines {columns : List String} (fault : Option AppendFault)
    (tree : StagingTree) {bs : List (StagingPath × List Row)} {p : StagingPath} {g : List Row}
    {r : Row} (hg : (p, g) ∈ bs) (hr : r ∈ g) :
    r ∈ unwritten columns tree fault bs ∨
      csvLine columns r ∈ (appendBuckets columns tree fault bs).1.lines p := by
  induction bs generalizing tree fault with
  | nil => cases hg
  | cons b rest ih =>
    obtain ⟨q, f⟩ := b
    have hline : (p, g) = (q, f) → csvLine columns r ∈ output columns tree q f := by
      intro heq
      cases heq
      simp only [output]
      split
      · exact List.mem_map_of_mem hr
      · exact List.mem_cons_of_mem _ (List.mem_map_of_mem hr)
    have kept : ∀ fault', (p, g) = (q, f) → csvLine columns r ∈
        (appendBuckets columns (tree.appendLines q (output columns tree q f)) fault' rest).1.lines
          p := by
      intro fault' heq
      obtain ⟨new, hnew, -⟩ := appendBuckets_grows columns fault'
        (tree.appendLines q (output columns tree q f)) rest p
      have hpq : p = q := (Prod.mk.inj heq).1
      rw [hnew, StagingTree.lines_appendLines, if_pos hpq]
      exact List.mem_append_left _ (List.mem_append_right _ (hline heq))
    rcases fault with _ | ⟨_ | k, written⟩
    · rcases List.mem_cons.mp hg with heq | hg
      · exact Or.inr (kept none heq)
      · exact (ih none _ hg).imp (fun h => by simp [unwritten] at h) id
    · cases written with
      | none => exact Or.inl (List.mem_flatMap.mpr ⟨_, hg, hr⟩)
      | some n =>
        rcases List.mem_cons.mp hg with heq | hg
        · cases heq
          simp only [unwritten, appendBuckets, StagingTree.lines_appendLines, if_pos]
          exact (mem_drop_or_output n hr).imp (List.mem_append_left _) (List.mem_append_right _)
        · exact Or.inl (List.mem_append_right _ (List.mem_flatMap.mpr ⟨_, hg, hr⟩))
    · rcases List.mem_cons.mp hg with heq | hg
      · exact Or.inr (kept _ heq)
      · exact ih _ _ hg

theorem mem_lostRows_or_has (rt : Runtime) {kind : Kind} (fault : Option AppendFault)
    {w : StagingWriter} {rows : List Row} {r : Row}
    (hr : r ∈ (w.dedupe.filterNew kind.keyFields rows).2.1)
    (hline : kind.csvLine r ≠ kind.header) :
    r ∈ lostRows rt kind fault w rows ∨
      (writeKind rt kind fault w rows).1.tree.Has kind (kind.csvLine r) := by
  simp only [lostRows, writeKind, write, append]
  cases hloc : paths rt kind kind.tsField (w.dedupe.filterNew kind.keyFields rows).2.1 with
  | none => exact Or.inl hr
  | some located =>
    obtain ⟨hrows, hpaths⟩ := paths_eq_some hloc
    rw [← hrows] at hr
    obtain ⟨⟨p, r⟩, hx, rfl⟩ := List.mem_map.mp hr
    have hbucket : (p, (located.filter (·.1 = p)).map (·.2)) ∈
        Bucket.mapGroups (·.map (·.2)) (Bucket.bucket (·.1) located) := by
      have hkey : p ∈ Bucket.keys (Bucket.bucket (fun x : StagingPath × Row => x.1) located) :=
        (Bucket.mem_keys_bucket _ p located).mpr ⟨_, hx, rfl⟩
      obtain ⟨⟨q, g⟩, hg, rfl⟩ := List.mem_map.mp hkey
      rw [← Bucket.eq_filter_of_mem_bucket _ hg]
      exact List.mem_map_of_mem hg
    have hgroup : r ∈ (located.filter (·.1 = p)).map (·.2) :=
      List.mem_map.mpr ⟨(p, r), by simp [hx], rfl⟩
    refine (mem_unwritten_or_lines fault w.tree hbucket hgroup).imp_right fun h => ?_
    exact ⟨hline, p, path_kind (hpaths _ hx), h⟩

end StagingWriter

/-- The rows an operation takes into the dedupe window of the server without staging them. -/
def App.loses (rt : Runtime) (s : App) : Op → List (Kind × Row)
  | .request (.samples c) =>
    match s.admitted rt c with
    | none => []
    | some node =>
      let electrical := consentedRows node c.body .electrical
      let weather := consentedRows node c.body .weather
      let (w, outcome) := StagingWriter.writeElectrical rt c.electricalFault s.writer electrical
      (StagingWriter.lostRows rt .electrical c.electricalFault s.writer electrical).map
          (.electrical, ·) ++
        if outcome.isSome then
          (StagingWriter.lostRows rt .weather c.weatherFault w weather).map (.weather, ·)
        else []
  | _ => []

def App.lostBy (rt : Runtime) : App → List Op → List (Kind × Row)
  | _, [] => []
  | s, op :: ops => s.loses rt op ++ (s.step rt op).lostBy rt ops

/-- Staging holds a line with a dedupe key. -/
def StagedKey (tree : StagingTree) (k : List Cell) : Prop :=
  ∃ kind l, tree.Has kind l ∧ l.key kind = k

theorem StagedKey.of_appends {P : Kind → Line → Prop} {tree tree' : StagingTree} {k : List Cell}
    (h : StagedKey tree k) (happends : StagingTree.Appends P tree tree') : StagedKey tree' k := by
  obtain ⟨kind, l, hl, hk⟩ := h
  exact ⟨kind, l, happends.has hl, hk⟩

/-- Every remembered key is staged or was lost. -/
def Accounted (w : StagingWriter) (lost : List (Kind × Row)) : Prop :=
  ∀ k ∈ w.dedupe.seen, StagedKey w.tree k ∨ ∃ x ∈ lost, rowKey x = k

section Write

variable (rt : Runtime) (fault : Option AppendFault) {w : StagingWriter} {rows : List Row}

theorem through_accounted {kind : Kind} (hrows : ∀ r ∈ rows, Projected kind r) {r : Row}
    (hr : r ∈ (w.dedupe.filterNew kind.keyFields rows).2.1) :
    StagedKey (StagingWriter.writeKind rt kind fault w rows).1.tree (rowKey (kind, r)) ∨
      r ∈ StagingWriter.lostRows rt kind fault w rows := by
  have hnumeric := (hrows r (Deduper.filterNew_unique_mem _ hr)).numeric
  rcases StagingWriter.mem_lostRows_or_has rt fault hr
    (Kind.csvLine_ne_header hnumeric) with h | h
  · exact Or.inr h
  · exact Or.inl ⟨kind, _, h, Kind.csvLine_key kind r⟩

theorem write_accounted (kind : Kind) {lost : List (Kind × Row)} (hw : Accounted w lost)
    (hrows : ∀ r ∈ rows, Projected kind r) :
    Accounted (StagingWriter.writeKind rt kind fault w rows).1
      (lost ++ (StagingWriter.lostRows rt kind fault w rows).map (kind, ·)) := by
  intro k hk
  rcases Deduper.filterNew_seen kind.keyFields hk with hk | ⟨r, hr, rfl⟩
  · rcases hw k hk with h | ⟨x, hx, hkey⟩
    · exact Or.inl (h.of_appends (StagingWriter.write_appends rt kind fault w rows))
    · exact Or.inr ⟨x, List.mem_append_left _ hx, hkey⟩
  · rcases through_accounted rt fault hrows hr with h | h
    · exact Or.inl h
    · exact Or.inr ⟨(kind, r), List.mem_append_right _ (List.mem_map_of_mem h), rfl⟩

/-- After a completed write every row it was given is staged, or its key was lost before. -/
theorem write_resend (kind : Kind) {lost : List (Kind × Row)} (hw : Accounted w lost)
    (hrows : ∀ r ∈ rows, Projected kind r)
    (h : (StagingWriter.writeKind rt kind fault w rows).2.isSome) {r : Row} (hr : r ∈ rows) :
    StagedKey (StagingWriter.writeKind rt kind fault w rows).1.tree (rowKey (kind, r)) ∨
      ∃ x ∈ lost, rowKey x = rowKey (kind, r) := by
  rcases Deduper.filterNew_covers kind.keyFields (d := w.dedupe) hr with hk | ⟨u, hu, hkey⟩
  · exact (hw _ hk).imp_left fun hstaged =>
      hstaged.of_appends (StagingWriter.write_appends rt kind fault w rows)
  · have hnumeric := (hrows u (Deduper.filterNew_unique_mem _ hu)).numeric
    refine Or.inl ⟨kind, _, StagingWriter.write_has h hu (Kind.csvLine_ne_header hnumeric), ?_⟩
    rw [Kind.csvLine_key, hkey]
    rfl

end Write

theorem step_accounted {rt : Runtime} {s : App} {lost : List (Kind × Row)}
    (hs : Accounted s.writer lost) (op : Op) :
    Accounted (s.step rt op).writer (lost ++ s.loses rt op) := by
  cases op with
  | drain parseFile ticks =>
    intro k hk
    rcases hs k hk with h | ⟨x, hx, hkey⟩
    · exact Or.inl (h.of_appends (Survey.drain_consented rt parseFile ticks s.toSite).2)
    · exact Or.inr ⟨x, List.mem_append_left _ hx, hkey⟩
  | request r =>
    by_cases hsamples : ∃ c, r = .samples c
    · obtain ⟨c, rfl⟩ := hsamples
      simp only [App.step, App.handle, App.loses]
      rcases postSamples_cases rt s c with ⟨hnone, _, _, h⟩ | ⟨node, _, hnode, hcases⟩
      · rw [h, hnone, List.append_nil]
        exact hs
      · have helec := write_accounted rt c.electricalFault .electrical hs
          fun r (hr : r ∈ consentedRows node c.body .electrical) => consentedRows_projected hr
        simp only [hnode, ← List.append_assoc]
        rcases hcases with ⟨he, h⟩ | ⟨he, -, h⟩ | ⟨he, -, _, h⟩
        · rw [h, he]
          simp only [Option.isSome_none, Bool.false_eq_true, if_false, List.append_nil]
          exact helec
        · rw [h, if_pos he]
          exact write_accounted rt c.weatherFault .weather helec (fun _ => consentedRows_projected)
        · rw [h, if_pos he]
          exact write_accounted rt c.weatherFault .weather helec (fun _ => consentedRows_projected)
    · have hframe := (handle_effect rt s r (not_exists.mp hsamples)).frame
      have hnone : s.loses rt (.request r) = [] := by
        cases r with
        | samples c => exact absurd ⟨c, rfl⟩ hsamples
        | _ => rfl
      rw [hnone, List.append_nil, App.step, App.writer, hframe.1, hframe.2.1]
      exact hs

theorem after_accounted {rt : Runtime} {s : App} {lost : List (Kind × Row)}
    (hs : Accounted s.writer lost) (ops : List Op) :
    Accounted (s.after rt ops).writer (lost ++ s.lostBy rt ops) := by
  induction ops generalizing s lost with
  | nil => simpa [App.lostBy, App.after] using hs
  | cons op ops ih => simpa [App.lostBy, App.after] using ih (step_accounted hs op)

/-- A completed request leaves every consented row of it staged whose key was not lost before. -/
theorem completes_staged {rt : Runtime} {s : App} {lost : List (Kind × Row)} {c : SamplesCall}
    (hs : Accounted s.writer lost) (h : s.completes rt (.samples c)) {x : Kind × Row}
    (hx : x ∈ s.offered (.samples c)) (hkeep : ∀ y ∈ lost, rowKey y ≠ rowKey x) :
    StagedKey (postSamples rt s c).1.tree (rowKey x) := by
  have hok : (postSamples rt s c).2.isOk := h
  rcases postSamples_cases rt s c with ⟨-, _, _, h⟩ | ⟨node, _, hnode, hcases⟩
  · rw [h] at hok
    cases hok
  · rcases hcases with ⟨-, h⟩ | ⟨-, -, h⟩ | ⟨he, hw, _, h⟩
    · rw [h] at hok
      cases hok
    · rw [h] at hok
      cases hok
    · have hrowsE := fun r (hr : r ∈ consentedRows node c.body .electrical) =>
        consentedRows_projected hr
      have hrowsW := fun r (hr : r ∈ consentedRows node c.body .weather) =>
        consentedRows_projected hr
      have helec := write_accounted rt c.electricalFault .electrical hs hrowsE
      rw [h]
      simp only [App.offered, App.admitted_live hnode] at hx
      rcases List.mem_append.mp hx with hx | hx
      · obtain ⟨r, hr, rfl⟩ := List.mem_map.mp hx
        rcases write_resend rt c.electricalFault .electrical hs hrowsE he hr with hr | ⟨y, hy, hkey⟩
        · exact hr.of_appends (StagingWriter.write_appends rt .weather c.weatherFault _ _)
        · exact absurd hkey (hkeep y hy)
      · obtain ⟨r, hr, rfl⟩ := List.mem_map.mp hx
        rcases write_resend rt c.weatherFault .weather helec hrowsW hw hr with hr | ⟨y, hy, hkey⟩
        · exact hr
        · rcases List.mem_append.mp hy with hy | hy
          · exact absurd hkey (hkeep y hy)
          · obtain ⟨u, -, rfl⟩ := List.mem_map.mp hy
            cases rowKey_kind hkey

/-- A failed ingest can be retried, in every run, for each key that no failed write lost: the
dedupe window holds such a key only if it is staged, and a resend that completes stages it. -/
theorem retry_safe (rt : Runtime) (internalKey : Option String) (rowsPerMin : ℚ) (ops : List Op) :
    let s := (App.start internalKey rowsPerMin).after rt ops
    let lost := (App.start internalKey rowsPerMin).lostBy rt ops
    (∀ k ∈ s.dedupe.seen, (∀ y ∈ lost, rowKey y ≠ k) → StagedKey s.tree k) ∧
    ∀ c, s.completes rt (.samples c) → ∀ x ∈ s.offered (.samples c),
      (∀ y ∈ lost, rowKey y ≠ rowKey x) → StagedKey (postSamples rt s c).1.tree (rowKey x) := by
  intro s lost
  have hstart : Accounted (App.start internalKey rowsPerMin).writer [] := fun k hk => by cases hk
  have hs : Accounted s.writer lost := after_accounted hstart ops
  refine ⟨fun k hk hkeep => ?_, fun c hc x hx hkeep => completes_staged hs hc hx hkeep⟩
  rcases hs k hk with h | ⟨y, hy, hkey⟩
  · exact h
  · exact absurd hkey (hkeep y hy)

/-- A batch of a good row and one with an unparseable timestamp, and the good row alone. -/
def spoiltBatch : SamplesCall where
  authorization := some "Bearer secret"
  body :=
    { nodeId := "n1"
      electrical := [.mains "2026-07-10T09:00:00Z", .mains "noon"] }
  monotonic := 0

def goodBatch : SamplesCall where
  authorization := some "Bearer secret"
  body :=
    { nodeId := "n1"
      electrical := [.mains "2026-07-10T09:00:00Z"] }
  monotonic := 0

def spoiltRun : List Op :=
  [.request (.register { locTier := .region, region := some "LONDON" } none none
      ⟨"n1", "secret", "2026-07-10T08:00:00Z"⟩),
   .request (.samples spoiltBatch)]

/-- The resend of the good row completes as a duplicate and stages nothing. -/
theorem resend_discarded :
    ¬ ∀ (rt : Runtime) (internalKey : Option String) (rowsPerMin : ℚ) (ops : List Op),
      let s := (App.start internalKey rowsPerMin).after rt ops
      ∀ c, s.completes rt (.samples c) → ∀ x ∈ s.offered (.samples c),
        StagedKey (postSamples rt s c).1.tree (rowKey x) := by
  intro h
  let s := (App.start none 6000).after .ascii spoiltRun
  have hcomplete : s.completes .ascii (.samples goodBatch) = true := by decide +kernel
  have hoffered : s.offered (.samples goodBatch) ≠ [] := by decide +kernel
  have hempty : (postSamples .ascii s goodBatch).1.tree = ∅ := AList.ext (by decide +kernel)
  obtain ⟨x, hx⟩ := List.exists_mem_of_ne_nil _ hoffered
  obtain ⟨kind, l, hl, -⟩ := h .ascii none 6000 spoiltRun goodBatch hcomplete x hx
  rw [hempty] at hl
  exact StagingTree.not_has_empty hl

end GridWitness.Server
