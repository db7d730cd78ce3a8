import GridWitness.Server.RoutesLaws
import GridWitness.Server.StagedLines
import GridWitness.Server.Utc

namespace GridWitness.Server

open Library

/-- A row of a request as the samples route reads it. -/
structure Sent where
  index : Nat
  ts : String
  unconsented : List Channel
  projected : Row

/-- Some rows as the samples route reads them, from a place on. -/
def sentFrom {ρ : Type} (present : ρ → List Channel) (ts : ρ → String) (project : ρ → Row)
    (consented : List Channel) (i : Nat) (rows : List ρ) : List Sent :=
  (rows.zipIdx i).map fun (row, i) => ⟨i, ts row, (present row).filter (· ∉ consented), project row⟩

/-- The rows of a request, by kind, each with its place in its list. -/
def sent (node : Node) (body : SamplesRequest) : Kind → List Sent
  | .electrical =>
    sentFrom ElectricalRow.presentChannels (·.tsUtc) (projectElectrical · node) node.channels 0
      body.electrical
  | .weather =>
    sentFrom WeatherRow.presentChannels (·.time) (projectWeather · node) node.channels 0 body.weather

namespace Sent

def refusal (kind : Kind) (x : Sent) : RejectedRow :=
  ⟨x.index, kind, "channel(s) not consented: " ++ listRepr (sorted x.unconsented)⟩

/-- The hour file of a row. -/
def file (rt : Runtime) (kind : Kind) (x : Sent) : Option StagingPath :=
  (rt.parseIso x.ts).map fun dt => ⟨kind, dt.date, dt.hourName⟩

/-- The file of a row is named by the hour its timestamp falls in once its offset is taken off. -/
def FiledInUtc (rt : Runtime) (fromisoformat : String → Option IsoTime) (kind : Kind) (x : Sent) : Prop :=
  ∃ (t : IsoTime) (dt : DateTime), fromisoformat (replaceZ x.ts) = some t ∧
    dt.instant = t.time.instant - t.offset.getD 0 ∧
    x.file (rt.withIso fromisoformat) kind = some ⟨kind, dt.date, dt.hourName⟩

end Sent

def rejectedRows (node : Node) (body : SamplesRequest) (kind : Kind) : List RejectedRow :=
  ((sent node body kind).filter (·.unconsented ≠ [])).map (·.refusal kind)

def consentedSent (node : Node) (body : SamplesRequest) (kind : Kind) : List Sent :=
  (sent node body kind).filter (·.unconsented = [])

/-- What some rows add to a file: their lines in their order, under a header if the file is new. -/
def newLines (rt : Runtime) (tree : StagingTree) (p : StagingPath) (rows : List Sent) : List Line :=
  let group := rows.filter (·.file rt p.kind = some p)
  (if group = [] ∨ p ∈ tree then [] else [p.kind.header]) ++
    group.map fun x => p.kind.csvLine x.projected

/-- What an answered request did with its rows; `taken` are those that were staged. -/
structure SamplesAccounted (rt : Runtime) (node : Node) (body : SamplesRequest) (s s' : App)
    (resp : SamplesResponse) (taken : Kind → List Sent) : Prop where
  conserved : resp.accepted + resp.duplicates + resp.rejected.length =
    body.electrical.length + body.weather.length
  rejected : resp.rejected = rejectedRows node body .electrical ++ rejectedRows node body .weather
  sublist : ∀ kind, (taken kind).Sublist (consentedSent node body kind)
  accepted : (taken .electrical).length + (taken .weather).length = resp.accepted
  filed : ∀ kind, ∀ x ∈ taken kind, (x.file rt kind).isSome
  lines : ∀ p, s'.tree.lines p = s.tree.lines p ++ newLines rt s.tree p (taken p.kind)
  window : ∀ k ∈ s'.dedupe.seen, k ∈ s.dedupe.seen ∨
    ∃ kind, ∃ x ∈ taken kind, dedupeKey kind.keyFields x.projected = k

section Sift

variable {ρ : Type} (kind : Kind) (present : ρ → List Channel) (ts : ρ → String) (project : ρ → Row)
  (consented : List Channel)

theorem siftRows_sent (i : Nat) (rows : List ρ) :
    siftRows kind present project consented i rows =
      (((sentFrom present ts project consented i rows).filter (·.unconsented ≠ [])).map (·.refusal kind),
        ((sentFrom present ts project consented i rows).filter (·.unconsented = [])).map (·.projected)) := by
  induction rows generalizing i with
  | nil => rfl
  | cons row rows ih =>
    have hcons : sentFrom present ts project consented i (row :: rows) =
        ⟨i, ts row, (present row).filter (· ∉ consented), project row⟩ ::
          sentFrom present ts project consented (i + 1) rows := rfl
    rw [siftRows, ih (i + 1), hcons, List.filter_cons, List.filter_cons]
    by_cases h : (present row).filter (· ∉ consented) = []
    · simp only [h, if_true, ne_eq, not_true_eq_false, decide_false, decide_true, List.map_cons,
        Bool.false_eq_true, if_false]
    · simp only [h, if_true, ne_eq, not_false_eq_true, decide_false, decide_true, List.map_cons,
        Bool.false_eq_true, if_false, Sent.refusal]

theorem sentFrom_length (i : Nat) (rows : List ρ) :
    (sentFrom present ts project consented i rows).length = rows.length := by
  rw [sentFrom, List.length_map, List.length_zipIdx]

end Sift

/-- The rows that reach a file, in the words of the writer. -/
theorem file_eq_path {rt : Runtime} {kind : Kind} {x : Sent}
    (hts : x.projected.get kind.tsField = .text x.ts) :
    StagingWriter.path rt kind kind.tsField x.projected = x.file rt kind := by
  rw [StagingWriter.path, hts]
  rfl

theorem append_newLines {rt : Runtime} {kind : Kind} {tree : StagingTree} {taken : List Sent}
    (hts : ∀ x ∈ taken, x.projected.get kind.tsField = .text x.ts)
    (hfiled : ∀ x ∈ taken, (x.file rt kind).isSome) (p : StagingPath) :
    let tree' := (StagingWriter.append rt kind kind.columns kind.tsField none tree
      (taken.map (·.projected))).1
    tree'.lines p = tree.lines p ++ (if p.kind = kind then newLines rt tree p taken else []) ∧
      (p.kind ≠ kind → (p ∈ tree' ↔ p ∈ tree)) := by
  intro tree'
  have hpaths : ∀ r ∈ taken.map (·.projected), (StagingWriter.path rt kind kind.tsField r).isSome := by
    rintro r hr
    obtain ⟨x, hx, rfl⟩ := List.mem_map.mp hr
    rw [file_eq_path (hts x hx)]
    exact hfiled x hx
  have hgroup : (taken.map (·.projected)).filter (StagingWriter.path rt kind kind.tsField · = some p) =
      (taken.filter (·.file rt kind = some p)).map (·.projected) := by
    rw [List.filter_map]
    congr 1
    apply List.filter_congr
    intro x hx
    simp [file_eq_path (hts x hx)]
  obtain ⟨hlines, hmem⟩ := @StagingWriter.append_lines rt kind kind.columns kind.tsField tree _ hpaths p
  rw [hgroup] at hlines hmem
  -- a file of the other kind gets none of the rows
  have hother : p.kind ≠ kind → taken.filter (·.file rt kind = some p) = [] := by
    intro hkind
    refine List.filter_eq_nil_iff.mpr fun x _ hx => hkind ?_
    obtain ⟨dt, -, rfl⟩ := Option.map_eq_some_iff.mp (of_decide_eq_true hx)
    rfl
  refine ⟨?_, fun hkind => ?_⟩
  · by_cases hkind : p.kind = kind
    · subst hkind
      rw [if_pos rfl]
      refine hlines.trans ?_
      simp only [newLines, StagingWriter.output, List.map_map, List.map_eq_nil_iff]
      by_cases hnil : taken.filter (·.file rt p.kind = some p) = []
      · simp [hnil]
      · by_cases hold : p ∈ tree
        · simp [hnil, hold, Kind.csvLine, Function.comp_def]
        · simp [hnil, hold, Kind.csvLine, Kind.header, Function.comp_def]
    · rw [if_neg hkind, List.append_nil]
      refine hlines.trans ?_
      rw [if_pos (by rw [hother hkind]; rfl)]
  · rw [hmem, hother hkind]
    simp

/-- What a completed write does with the rows it is given. -/
theorem writeKind_taken {rt : Runtime} {kind : Kind} {fault : Option AppendFault} {w w' : StagingWriter}
    {xs : List Sent} (hts : ∀ x ∈ xs, x.projected.get kind.tsField = .text x.ts) {accepted dups : Nat}
    (h : StagingWriter.writeKind rt kind fault w (xs.map (·.projected)) = (w', some (accepted, dups))) :
    ∃ taken : List Sent, taken.Sublist xs ∧ taken.length = accepted ∧ accepted + dups = xs.length ∧
      (∀ x ∈ taken, (x.file rt kind).isSome) ∧
      (∀ p, w'.tree.lines p =
          w.tree.lines p ++ (if p.kind = kind then newLines rt w.tree p taken else []) ∧
        (p.kind ≠ kind → (p ∈ w'.tree ↔ p ∈ w.tree))) ∧
      ∀ k ∈ w'.dedupe.seen, k ∈ w.dedupe.seen ∨ ∃ x ∈ taken, dedupeKey kind.keyFields x.projected = k := by
  have hdone : (StagingWriter.append rt kind kind.columns kind.tsField fault w.tree
      (w.dedupe.filterNew kind.keyFields (xs.map (·.projected))).2.1).2 = true := by
    by_contra hfail
    simp [StagingWriter.writeKind, StagingWriter.write, hfail] at h
  obtain ⟨hpaths, hsame⟩ := StagingWriter.append_completed hdone
  obtain ⟨hsub, hcount⟩ := Deduper.filterNew_sublist kind.keyFields w.dedupe (xs.map (·.projected))
  have hseen := @Deduper.filterNew_seen kind.keyFields w.dedupe (xs.map (·.projected))
  obtain ⟨taken, htaken, hunique⟩ := List.sublist_map_iff.mp hsub
  rw [hsame] at hdone
  simp only [StagingWriter.writeKind, StagingWriter.write, hsame, hdone, if_true, Prod.mk.injEq,
    Option.some.injEq] at h
  obtain ⟨rfl, rfl, rfl⟩ := h
  rw [hunique] at hpaths hseen hcount ⊢
  have hts : ∀ x ∈ taken, x.projected.get kind.tsField = .text x.ts := fun x hx =>
    hts x (htaken.subset hx)
  have hfiled : ∀ x ∈ taken, (x.file rt kind).isSome := fun x hx => by
    rw [← file_eq_path (hts x hx)]
    exact hpaths x.projected (List.mem_map_of_mem hx)
  refine ⟨taken, htaken, by rw [List.length_map], by rw [hcount, List.length_map], hfiled,
    append_newLines hts hfiled, fun k hk => (hseen hk).imp_right ?_⟩
  rintro ⟨r, hr, hkey⟩
  obtain ⟨x, hx, rfl⟩ := List.mem_map.mp hr
  exact ⟨x, hx, hkey⟩

theorem sent_ts (node : Node) (body : SamplesRequest) (kind : Kind) {x : Sent}
    (hx : x ∈ sent node body kind) : x.projected.get kind.tsField = .text x.ts := by
  cases kind with
  | electrical =>
    obtain ⟨⟨row, i⟩, -, rfl⟩ := List.mem_map.mp hx
    rfl
  | weather =>
    obtain ⟨⟨row, i⟩, -, rfl⟩ := List.mem_map.mp hx
    rfl

/-- An answered request: its node was live, and both writers completed on the rows it may share. -/
theorem postSamples_ok {rt : Runtime} {s s' : App} {c : SamplesCall} {resp : SamplesResponse}
    (h : postSamples rt s c = (s', .ok resp)) :
    ∃ node w₁ eAcc eDup wAcc wDup limiter w₂, s.db.getNode c.body.nodeId = some node ∧
      StagingWriter.writeKind rt .electrical c.electricalFault s.writer
        ((consentedSent node c.body .electrical).map (·.projected)) = (w₁, some (eAcc, eDup)) ∧
      StagingWriter.writeKind rt .weather c.weatherFault w₁
        ((consentedSent node c.body .weather).map (·.projected)) = (w₂, some (wAcc, wDup)) ∧
      s' = s.withWriter limiter w₂ ∧
      resp = ⟨eAcc + wAcc, eDup + wDup,
        rejectedRows node c.body .electrical ++ rejectedRows node c.body .weather⟩ := by
  simp only [postSamples] at h
  split at h
  · cases h
  · next presented hpresented =>
    split at h
    · cases h
    · next node hnode =>
      generalize s.limiter.allow c.monotonic c.body.nodeId _ = outcome at h
      obtain ⟨limiter, _ | _⟩ := outcome
      · cases h
      · rw [siftRows_sent .electrical _ (·.tsUtc), siftRows_sent .weather _ (·.time)] at h
        simp only [Bool.not_true, Bool.false_eq_true, if_false] at h
        split at h
        · cases h
        · next w₁ eAcc eDup helectrical =>
          split at h
          · cases h
          · next w₂ wAcc wDup hweather =>
            cases h
            exact ⟨node, w₁, eAcc, eDup, wAcc, wDup, limiter, w₂, authenticateNode_ok hnode, helectrical,
              hweather, rfl, rfl⟩

/-- A row is rejected or may be shared. -/
theorem consented_or_rejected (node : Node) (body : SamplesRequest) (kind : Kind) :
    (consentedSent node body kind).length + (rejectedRows node body kind).length =
      (sent node body kind).length := by
  rw [consentedSent, rejectedRows, List.length_map]
  simpa using ((List.filter_append_perm (fun x : Sent => decide (x.unconsented = []))
    (sent node body kind)).length_eq)

/-- The staged rows of a kind. -/
def takenOf (electrical weather : List Sent) : Kind → List Sent
  | .electrical => electrical
  | .weather => weather

theorem postSamples_accounted {rt : Runtime} {s s' : App} {c : SamplesCall} {resp : SamplesResponse}
    (h : postSamples rt s c = (s', .ok resp)) :
    ∃ node taken, s.db.getNode c.body.nodeId = some node ∧ SamplesAccounted rt node c.body s s' resp taken := by
  obtain ⟨node, w₁, eAcc, eDup, wAcc, wDup, limiter, w₂, hnode, helectrical, hweather, rfl, rfl⟩ :=
    postSamples_ok h
  have hts : ∀ kind, ∀ x ∈ consentedSent node c.body kind, x.projected.get kind.tsField = .text x.ts :=
    fun kind x hx => sent_ts node c.body kind (List.mem_of_mem_filter hx)
  obtain ⟨e, hesub, helen, hecount, hefiled, helines, heseen⟩ := writeKind_taken (hts .electrical) helectrical
  obtain ⟨w, hwsub, hwlen, hwcount, hwfiled, hwlines, hwseen⟩ := writeKind_taken (hts .weather) hweather
  refine ⟨node, takenOf e w, hnode, ?_⟩
  constructor
  · have hE := consented_or_rejected node c.body .electrical
    have hW := consented_or_rejected node c.body .weather
    have hElen : (sent node c.body .electrical).length = c.body.electrical.length := by
      rw [sent, sentFrom_length]
    have hWlen : (sent node c.body .weather).length = c.body.weather.length := by
      rw [sent, sentFrom_length]
    simp only [List.length_append]
    omega
  · rfl
  · rintro (_ | _)
    · exact hesub
    · exact hwsub
  · exact congrArg₂ (· + ·) helen hwlen
  · rintro (_ | _)
    · exact hefiled
    · exact hwfiled
  · rintro ⟨_ | _, date, hour⟩
    · rw [App.withWriter, (hwlines _).1, if_neg (by simp), List.append_nil, (helines _).1, if_pos rfl]
      rfl
    · have hsame : newLines rt w₁.tree ⟨.weather, date, hour⟩ w = newLines rt s.tree ⟨.weather, date, hour⟩ w := by
        simp only [newLines, (helines ⟨.weather, date, hour⟩).2 (by simp)]
        rfl
      rw [App.withWriter, (hwlines _).1, if_pos rfl, (helines _).1, if_neg (by simp), List.append_nil, hsame]
      rfl
  · intro k hk
    rcases hwseen k hk with hk | ⟨x, hx, hkey⟩
    · rcases heseen k hk with hk | ⟨x, hx, hkey⟩
      · exact Or.inl hk
      · exact Or.inr ⟨.electrical, x, hx, hkey⟩
    · exact Or.inr ⟨.weather, x, hx, hkey⟩

/-- Every row of an answered request is counted once, and the accepted ones are staged in their order,
each in the hour file of its timestamp in UTC. -/
theorem samples_accounted (rt : Runtime) (fromisoformat : String → Option IsoTime) (s : App)
    (c : SamplesCall) (resp : SamplesResponse)
    (h : (postSamples (rt.withIso fromisoformat) s c).2 = .ok resp) :
    ∃ node taken, s.db.getNode c.body.nodeId = some node ∧
      SamplesAccounted (rt.withIso fromisoformat) node c.body s (postSamples (rt.withIso fromisoformat) s c).1
        resp taken ∧
      ∀ kind, ∀ x ∈ taken kind, x.FiledInUtc rt fromisoformat kind := by
  obtain ⟨node, taken, hnode, haccounted⟩ := postSamples_accounted (Prod.ext rfl h)
  refine ⟨node, taken, hnode, haccounted, fun kind x hx => ?_⟩
  obtain ⟨p, hp⟩ := Option.isSome_iff_exists.mp (haccounted.filed kind x hx)
  obtain ⟨dt, hdt, rfl⟩ := Option.map_eq_some_iff.mp hp
  obtain ⟨t, ht, hutc⟩ := Option.bind_eq_some_iff.mp hdt
  exact ⟨t, dt, ht, IsoTime.utc_instant hutc, hp⟩

/-- One summer timestamp with an offset of two hours, and one in UTC. -/
def summerIso (text : String) : Option IsoTime :=
  if text = "2026-07-10T01:30:00+02:00" then
    some ⟨⟨2026, 7, 10, 1, 30, 0, 0⟩, some 7200000000,
      ⟨by decide, by decide, by decide, by decide, by decide, by decide, by decide⟩, by decide⟩
  else if text = "2026-07-10T09:00:00+00:00" then
    some ⟨⟨2026, 7, 10, 9, 0, 0, 0⟩, some 0,
      ⟨by decide, by decide, by decide, by decide, by decide, by decide, by decide⟩, by decide⟩
  else none

/-- A node that shares its frequency, and a batch with a voltage beside two frequencies. -/
def frequencyNode : App :=
  (register .ascii (App.start none 6000) { channels := [.frequencyHz], locTier := .region, region := some "LONDON" }
    none none ⟨"n1", "secret", "2026-07-10T08:00:00Z"⟩).1

def mixedBatch : SamplesCall :=
  { authorization := some "Bearer secret"
    body :=
      { nodeId := "n1"
        electrical :=
          [.mains "2026-07-10T09:00:00Z",
           { ElectricalRow.mains "2026-07-10T09:00:00Z" with voltageV := some (.fin 229) },
           .mains "2026-07-10T01:30:00+02:00"] }
    monotonic := 0 }

def mixedAnswer : SamplesResponse :=
  ⟨2, 0, [⟨1, .electrical, "channel(s) not consented: ['voltage_v']"⟩]⟩

theorem samples_accounted_mixedBatch :
    ∃ node taken, frequencyNode.db.getNode "n1" = some node ∧
      SamplesAccounted (Runtime.ascii.withIso summerIso) node mixedBatch.body frequencyNode
        (postSamples (Runtime.ascii.withIso summerIso) frequencyNode mixedBatch).1 mixedAnswer taken ∧
      ∀ kind, ∀ x ∈ taken kind, x.FiledInUtc .ascii summerIso kind :=
  samples_accounted .ascii summerIso frequencyNode mixedBatch mixedAnswer (by decide +kernel)

end GridWitness.Server
