import GridWitness.Acquirer.HorizonLaws
import GridWitness.Acquirer.Process

namespace GridWitness.Acquirer

open Library Server

/-- Every file opens with the header of its kind. -/
def Intact (tree : StagingTree) : Prop :=
  ∀ p ∈ tree, ∃ ls, tree.lines p = p.kind.header :: ls

section Append

variable {rt : Runtime} {host : Host} {kind : Kind} {tree : StagingTree} {rows : List Row}

def appended (rt : Runtime) (kind : Kind) (tree : StagingTree) (rows : List Row) : StagingTree :=
  (StagingWriter.append rt kind kind.columns kind.tsField none tree rows).1

def Paths (rt : Runtime) (kind : Kind) (rows : List Row) : Prop :=
  ∀ r ∈ rows, (StagingWriter.path rt kind kind.tsField r).isSome

theorem appended_of_not_paths (h : ¬ Paths rt kind rows) : appended rt kind tree rows = tree := by
  have hnone : StagingWriter.paths rt kind kind.tsField rows = none := by
    rw [← Option.not_isSome_iff_eq_none, StagingWriter.paths_isSome]
    exact h
  simp [appended, StagingWriter.append, hnone]

/-- A completed append, file by file, over an intact tree. -/
theorem appended_lines (hpaths : Paths rt kind rows) (p : StagingPath) :
    let group := rows.filter (StagingWriter.path rt kind kind.tsField · = some p)
    (p ∈ appended rt kind tree rows ↔ group ≠ [] ∨ p ∈ tree) ∧
      (p ∈ tree → (appended rt kind tree rows).lines p = tree.lines p ++ group.map kind.csvLine) ∧
      (p ∉ tree → group ≠ [] →
        (appended rt kind tree rows).lines p = kind.header :: group.map kind.csvLine) := by
  intro group
  have happend : _ ∧ (p ∈ appended rt kind tree rows ↔ _) := StagingWriter.append_lines hpaths p
  obtain ⟨hlines, hmem⟩ := happend
  refine ⟨hmem, fun hp => ?_, fun hp hgroup => ?_⟩
  · rw [appended, hlines]
    split
    · next hempty => simp [group, hempty]
    · simp only [StagingWriter.output, if_pos hp]
      rfl
  · have hnone : tree.lines p = [] := by
      simp [StagingTree.lines, AList.lookup_eq_none.mpr hp]
    rw [appended, hlines, if_neg hgroup, hnone]
    simp only [StagingWriter.output, if_neg hp, List.nil_append]
    rfl

theorem appended_intact (htree : Intact tree) : Intact (appended rt kind tree rows) := by
  by_cases hpaths : Paths rt kind rows
  · intro p hp
    obtain ⟨hmem, hold, hnew⟩ := appended_lines hpaths p
    by_cases hin : p ∈ tree
    · obtain ⟨ls, hls⟩ := htree p hin
      exact ⟨_, by rw [hold hin, hls, List.cons_append]⟩
    · have hgroup := (hmem.mp hp).resolve_right hin
      obtain ⟨r, hr⟩ := List.exists_mem_of_ne_nil _ hgroup
      have hkind : p.kind = kind := StagingWriter.path_kind (by simpa using (List.mem_filter.mp hr).2)
      exact ⟨_, by rw [hnew hin hgroup, hkind]⟩
  · rwa [appended_of_not_paths hpaths]

theorem mem_of_dictRows {p : StagingPath} {d : Row} (h : d ∈ dictRows host (tree.lines p)) :
    p ∈ tree := by
  by_contra hp
  rw [StagingTree.lines, AList.lookup_eq_none.mpr hp] at h
  cases h

/-- The rows of a file after an append: those it had, and the appended ones of that file. -/
theorem dictRows_appended (htree : Intact tree) (hpaths : Paths rt kind rows) (p : StagingPath) :
    dictRows host ((appended rt kind tree rows).lines p) = dictRows host (tree.lines p) ++
      (rows.filter (StagingWriter.path rt kind kind.tsField · = some p)).map (stagedRow host kind) := by
  obtain ⟨hmem, hold, hnew⟩ := appended_lines hpaths p
  have hkind : rows.filter (StagingWriter.path rt kind kind.tsField · = some p) ≠ [] →
      p.kind = kind := by
    intro hgroup
    obtain ⟨r, hr⟩ := List.exists_mem_of_ne_nil _ hgroup
    exact StagingWriter.path_kind (by simpa using (List.mem_filter.mp hr).2)
  generalize rows.filter (StagingWriter.path rt kind kind.tsField · = some p) = group at *
  by_cases hin : p ∈ tree
  · obtain ⟨ls, hls⟩ := htree p hin
    rw [hold hin, hls, List.cons_append, dictRows, dictRows, List.map_append, List.map_map]
    congr 1
    cases group with
    | nil => rfl
    | cons r group =>
      rw [hkind (List.cons_ne_nil r group)]
      rfl
  · have hlines : ∀ tree : StagingTree, p ∉ tree → tree.lines p = [] := fun tree h => by
      rw [StagingTree.lines, AList.lookup_eq_none.mpr h, Option.getD_none]
    rw [hlines tree hin]
    cases group with
    | nil => rw [hlines _ fun hp => (hmem.mp hp).elim (fun h => h rfl) hin]; rfl
    | cons r group =>
      rw [hnew hin (List.cons_ne_nil r group)]
      simp [dictRows, stagedRow]

theorem mem_appended (htree : Intact tree) {p : StagingPath} {d : Row} :
    (p ∈ appended rt kind tree rows ∧ d ∈ dictRows host ((appended rt kind tree rows).lines p)) ↔
      (p ∈ tree ∧ d ∈ dictRows host (tree.lines p)) ∨
        Paths rt kind rows ∧ ∃ r ∈ rows, StagingWriter.path rt kind kind.tsField r = some p ∧
          stagedRow host kind r = d := by
  rw [and_iff_right_of_imp mem_of_dictRows, and_iff_right_of_imp mem_of_dictRows]
  by_cases hpaths : Paths rt kind rows
  · rw [dictRows_appended htree hpaths]
    simp [hpaths, and_assoc]
  · simp [appended_of_not_paths hpaths, hpaths]

end Append

/-- A keyed row of a file of a tree. -/
def KeyedIn (host : Host) (tree : StagingTree) (p : StagingPath) (k : Key) : Prop :=
  p ∈ tree ∧ ∃ d ∈ dictRows host (tree.lines p), Keyed host p.kind d k

namespace Process

variable {rt : Runtime} {host : Host} {x : Process} {p : StagingPath} {k : Key}

/-- The cursor of a kind: in memory during a run, else the saved one. -/
def cursor (x : Process) : State :=
  match x.phase with
  | .idle => x.saved
  | .covering state _ => state
  | .holding state _ _ _ => state
  | .landed state _ _ => state

/-- The run has read a kind and not yet moved its cursor. -/
def midway (x : Process) (kind : Kind) : Prop :=
  match x.phase with
  | .holding _ kind' _ _ => kind' = kind
  | .landed _ kind' _ => kind' = kind
  | _ => False

/-- A key is in the lake, or in the rows the run is about to land. -/
def Secured (host : Host) (x : Process) (kind : Kind) (k : Key) : Prop :=
  Landed x.lake kind k ∨
    match x.phase with
    | .holding _ kind' rows _ => kind = kind' ∧ HasKey kind (frame host kind rows) k
    | _ => False

/-- What may happen next: rows with a new key are appended to hours past the cursor, and not
between a read and the move of the cursor; and the new rows of a read keep their keys in the one
layout they are read in. -/
def Timely (rt : Runtime) (host : Host) (x : Process) : Event → Prop
  | .append kind rows => Paths rt kind rows → ∀ r ∈ rows, ∀ p,
      StagingWriter.path rt kind kind.tsField r = some p →
      ∀ k, Keyed host kind (stagedRow host kind r) k →
        x.Secured host kind k ∨ covered (x.cursor kind) p = false ∧ ¬ x.midway kind
  | .acquire =>
    match x.phase with
    | .covering state (kind :: _) =>
      let rows := readStaging host x.tree kind (state kind)
      ∀ r ∈ rows, ∀ k, Keyed host kind r k → Landed x.lake kind k ∨ ReadAs host kind rows k
    | _ => True

/-- Kinds the run in progress still has to cover. -/
def todo (x : Process) : List Kind :=
  match x.phase with
  | .idle => []
  | .covering _ todo => todo
  | .holding _ kind _ todo => kind :: todo
  | .landed _ kind todo => kind :: todo

structure Inv (host : Host) (x : Process) : Prop where
  intact : Intact x.tree
  begun : ∀ p k, KeyedIn host x.started p k → KeyedIn host x.tree p k
  covered : ∀ p k, KeyedIn host x.tree p k → covered (x.cursor p.kind) p → x.Secured host p.kind k
  midway : ∀ p k, KeyedIn host x.tree p k → x.midway p.kind → x.Secured host p.kind k
  done : ∀ p k, KeyedIn host x.started p k → p.kind ∉ x.todo → Landed x.lake p.kind k

theorem start_inv (lake : Lake) : Inv host (start lake) := by
  have hempty : ∀ p k, ¬ KeyedIn host (∅ : StagingTree) p k := fun p k h => by
    simp [KeyedIn] at h
  exact ⟨fun p hp => by simp [start] at hp, fun p k h => absurd h (hempty p k),
    fun p k h => absurd h (hempty p k), fun p k h => absurd h (hempty p k),
    fun p k h => absurd h (hempty p k)⟩

theorem keyedIn_append (hx : Inv host x) {kind : Kind} {rows : List Row}
    (h : KeyedIn host (appended rt kind x.tree rows) p k) :
    KeyedIn host x.tree p k ∨ Paths rt kind rows ∧ p.kind = kind ∧ ∃ r ∈ rows,
      StagingWriter.path rt kind kind.tsField r = some p ∧ Keyed host kind (stagedRow host kind r) k := by
  obtain ⟨hp, d, hd, hkey⟩ := h
  rcases (mem_appended hx.intact).mp ⟨hp, hd⟩ with ⟨hp, hd⟩ | ⟨hpaths, r, hr, hpath, rfl⟩
  · exact Or.inl ⟨hp, d, hd, hkey⟩
  · have hkind : p.kind = kind := StagingWriter.path_kind hpath
    exact Or.inr ⟨hpaths, hkind, r, hr, hpath, hkind ▸ hkey⟩

theorem append_inv (hx : Inv host x) (kind : Kind) (rows : List Row)
    (h : Timely rt host x (.append kind rows)) : Inv host (step rt host x (.append kind rows)) := by
  have hnew : ∀ p k, KeyedIn host (appended rt kind x.tree rows) p k →
      KeyedIn host x.tree p k ∨ x.Secured host p.kind k ∨
        Acquirer.covered (x.cursor p.kind) p = false ∧ ¬ x.midway p.kind := by
    intro p k hk
    rcases keyedIn_append hx hk with hk | ⟨hpaths, rfl, r, hr, hpath, hkey⟩
    · exact Or.inl hk
    · exact Or.inr (h hpaths r hr p hpath k hkey)
  refine ⟨appended_intact hx.intact, fun p k hk => ?_, fun p k hk hcov => ?_,
    fun p k hk hmid => ?_, hx.done⟩
  · obtain ⟨hp, d, hd, hkey⟩ := hx.begun p k hk
    obtain ⟨hp, hd⟩ := (mem_appended hx.intact).mpr (Or.inl ⟨hp, hd⟩)
    exact ⟨hp, d, hd, hkey⟩
  · rcases hnew p k hk with hold | hsecured | ⟨hpast, -⟩
    · exact hx.covered p k hold hcov
    · exact hsecured
    · have hcov : Acquirer.covered (x.cursor p.kind) p = true := hcov
      rw [hpast] at hcov
      cases hcov
  · rcases hnew p k hk with hold | hsecured | ⟨-, hnot⟩
    · exact hx.midway p k hold hmid
    · exact hsecured
    · exact absurd hmid hnot

/-- A read holds every key its kind still misses. -/
theorem holds_read (hx : Inv host x) {state : State} {kinds : List Kind}
    (hphase : x.phase = .covering state (p.kind :: kinds)) (h : Timely rt host x .acquire)
    (hk : KeyedIn host x.tree p k) :
    Landed x.lake p.kind k ∨
      HasKey p.kind (frame host p.kind (readStaging host x.tree p.kind (state p.kind))) k := by
  by_cases hcov : Acquirer.covered (state p.kind) p = true
  · have hsecured := hx.covered p k hk (by simpa [cursor, hphase] using hcov)
    simp only [Secured, hphase, or_false] at hsecured
    exact Or.inl hsecured
  · obtain ⟨hp, d, hd, hkey⟩ := hk
    have hread : d ∈ readStaging host x.tree p.kind (state p.kind) :=
      mem_readStaging.mpr ⟨p, hp, rfl, by simpa using hcov, hd⟩
    simp only [Timely, hphase] at h
    exact (h d hread k hkey).imp_right hasKey_frame.mpr

theorem acquire_inv (hx : Inv host x) (h : Timely rt host x .acquire) : Inv host (x.acquire host) := by
  obtain ⟨tree, lake, saved, phase, started⟩ := x
  cases phase with
  | idle =>
    refine ⟨hx.intact, fun p k hk => hk, hx.covered, fun p k hk hmid => hmid.elim, fun p k hk hp => ?_⟩
    cases hkind : p.kind <;> simp [acquire, todo, hkind] at hp
  | covering state todo =>
    cases todo with
    | nil => exact ⟨hx.intact, hx.begun, hx.covered, fun p k hk hmid => hmid.elim, hx.done⟩
    | cons kind todo =>
      refine ⟨hx.intact, hx.begun, fun p k hk hcov => ?_, fun p k hk hmid => ?_, hx.done⟩
      · exact Or.inl ((hx.covered p k hk hcov).resolve_right id)
      · have hmid : kind = p.kind := hmid
        subst hmid
        exact (holds_read hx rfl h hk).imp_right fun hrow => ⟨rfl, hrow⟩
  | holding state kind rows todo =>
    have hlake : ∀ kind' k, Secured host ⟨tree, lake, saved, .holding state kind rows todo, started⟩
        kind' k → Landed (writeDataset host kind (fun _ => true) lake
          (clampHorizon none (frame host kind rows))).1 kind' k := by
      rintro kind' k hsecured
      rw [writeDataset_landed fun _ => rfl, clampHorizon]
      refine hsecured.imp_right ?_
      rintro ⟨rfl, hrow⟩
      exact ⟨rfl, hrow⟩
    refine ⟨hx.intact, hx.begun, fun p k hk hcov => ?_, fun p k hk hmid => ?_, fun p k hk hp => ?_⟩
    · exact Or.inl (hlake p.kind k (hx.covered p k hk hcov))
    · exact Or.inl (hlake p.kind k (hx.midway p k hk hmid))
    · exact hlake p.kind k (Or.inl (hx.done p k hk hp))
  | landed state kind todo =>
    have hland : ∀ p k, KeyedIn host tree p k → p.kind = kind → Landed lake p.kind k :=
      fun p k hk hkind => (hx.midway p k hk hkind.symm).resolve_right id
    refine ⟨hx.intact, hx.begun, fun p k hk hcov => ?_, fun p k hk hmid => hmid.elim,
      fun p k hk hp => ?_⟩
    · by_cases hkind : p.kind = kind
      · exact Or.inl (hland p k hk hkind)
      · refine hx.covered p k hk ?_
        have hsame : state.set kind (latestHour tree kind) p.kind = state p.kind := if_neg hkind
        have hcov : Acquirer.covered (state.set kind (latestHour tree kind) p.kind) p = true := hcov
        rw [hsame] at hcov
        exact hcov
    · by_cases hkind : p.kind = kind
      · exact hland p k (hx.begun p k hk) hkind
      · refine hx.done p k hk fun hmem => hp ?_
        exact (List.mem_cons.mp hmem).resolve_left hkind

theorem step_inv (hx : Inv host x) (e : Event) (h : Timely rt host x e) :
    Inv host (step rt host x e) := by
  cases e with
  | append kind rows => exact append_inv hx kind rows h
  | acquire => exact acquire_inv hx h

section July

theorem july_readAs {kind : Kind} {rows : List Row} {r : Row} (hr : r ∈ rows)
    (hkey : Keyed .july kind r k) : ReadAs .july kind rows k := by
  obtain ⟨htime, hnode, hcells⟩ := hkey
  refine ⟨r, hr, ?_, hnode, hcells⟩
  have hlayout : ∀ cs : List Cell, ∀ c ∈ cs, ownTime .july c = some k.1 →
      readTime .july (layoutOf .july cs) c = some k.1 := by
    intro cs c hc ht
    cases htext : someText c with
    | none => simp [ownTime, readTime, htext] at ht
    | some s =>
      have hsome : (cs.findSome? someText).isSome :=
        List.findSome?_isSome_iff.mpr ⟨c, hc, by simp [htext]⟩
      obtain ⟨s', hs'⟩ := Option.isSome_iff_exists.mp hsome
      have hown : Host.july.parse (Host.july.infer s) s = some k.1 := by
        simpa [ownTime, readTime, layoutOf, htext] using ht
      -- the host has one layout, whatever text it is inferred from
      have hone : Host.july.infer s = Host.july.infer s' := rfl
      simpa [readTime, layoutOf, htext, hs', ← hone] using hown
  exact hlayout _ _ (List.mem_map_of_mem hr) htime

theorem july_timely_acquire : Timely rt .july x .acquire := by
  obtain ⟨tree, lake, saved, phase, started⟩ := x
  cases phase with
  | covering state todo =>
    cases todo with
    | nil => trivial
    | cons kind todo => exact fun r hr k hkey => Or.inr (july_readAs hr hkey)
  | idle | holding | landed => trivial

theorem july_timely_run (n : Nat) :
    Trace.Along (step rt .july) (Timely rt .july) x (List.replicate n .acquire) := by
  induction n generalizing x with
  | zero => trivial
  | succ n ih => exact ⟨july_timely_acquire, ih⟩

end July

end Process

/-- In a run whose appends and reads are all timely, every row staged before the last run of the
acquirer set out is landed when that run is over. -/
theorem timely_landed (rt : Runtime) (host : Host) (lake : Lake) (events : List Event)
    (h : Trace.Along (Process.step rt host) (Process.Timely rt host) (.start lake) events) :
    let x := events.foldl (Process.step rt host) (.start lake)
    x.phase = .idle → ∀ kind, ∀ r ∈ Staged host x.started kind, ∀ k, Keyed host kind r k →
      Landed x.lake kind k := by
  intro x hidle kind r hr k hkey
  have hx : Process.Inv host x :=
    h.invariant (fun _ e hx he => Process.step_inv hx e he) (Process.start_inv lake)
  obtain ⟨p, hp, rfl, -, hr⟩ := mem_readStaging.mp hr
  exact hx.done p k ⟨hp, r, hr, hkey⟩ (by simp [Process.todo, hidle])

def nineOnce : List Event :=
  .append .electrical [reading "2026-07-10T09:00:00Z"] :: List.replicate 8 .acquire

theorem nine_landed :
    let x := nineOnce.foldl (Process.step .ascii .july) (.start ∅)
    (∃ r ∈ Staged .july x.started .electrical, ∃ cells, Keyed .july .electrical r (oClock 9, cells)) ∧
      ∃ cells, Landed x.lake .electrical (oClock 9, cells) := by
  intro x
  have hstaged : ∃ r ∈ Staged .july x.started .electrical,
      ownTime .july (r.get "ts_utc") = some (oClock 9) ∧ r.get "node_id" ≠ .null := by
    decide +kernel
  obtain ⟨r, hr, htime, hnode⟩ := hstaged
  have hkey : Keyed .july .electrical r (oClock 9, _) := ⟨htime, hnode, rfl⟩
  have hfirst : Process.Timely .ascii .july (.start ∅)
      (.append .electrical [reading "2026-07-10T09:00:00Z"]) := fun _ _ _ _ _ _ _ => Or.inr ⟨rfl, id⟩
  exact ⟨⟨r, hr, _, hkey⟩, _,
    timely_landed .ascii .july ∅ nineOnce ⟨hfirst, Process.july_timely_run 8⟩ rfl .electrical r hr _
      hkey⟩

/-- After a run that has seen nine o'clock, a row of eight o'clock is backfilled. -/
def nineThenEight : List Event :=
  nineOnce ++ .append .electrical [reading "2026-07-10T08:00:00Z"] :: List.replicate 8 .acquire

theorem backfilled_row_lost :
    ¬ ∀ (rt : Runtime) (host : Host) (lake : Lake) (events : List Event),
      let x := events.foldl (Process.step rt host) (.start lake)
      x.phase = .idle → ∀ kind, ∀ r ∈ Staged host x.started kind, ∀ k, Keyed host kind r k →
        Landed x.lake kind k := by
  intro h
  let x := nineThenEight.foldl (Process.step .ascii .july) (.start ∅)
  have hstaged : ∃ r ∈ Staged .july x.started .electrical,
      ownTime .july (r.get "ts_utc") = some (oClock 8) ∧ r.get "node_id" ≠ .null := by
    decide +kernel
  obtain ⟨r, hr, htime, hnode⟩ := hstaged
  obtain ⟨w, rows, hlookup, fr, hfr, hkey⟩ := h .ascii .july ∅ nineThenEight rfl .electrical r hr
    (oClock 8, _) ⟨htime, hnode, rfl⟩
  have hlake : ∀ file ∈ x.lake.entries, ∀ fr ∈ file.2, fr.ts ≠ oClock 8 := by decide +kernel
  exact hlake _ (AList.mem_lookup_iff.mp hlookup) fr hfr (congrArg Prod.fst hkey)

end GridWitness.Acquirer
