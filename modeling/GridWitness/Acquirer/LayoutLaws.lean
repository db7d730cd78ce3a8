import GridWitness.Acquirer.Frame
import GridWitness.Server.Utc

namespace GridWitness.Acquirer

open Library Server

section Column

variable {α β : Type} {f g : α → Option β} {l : List α}

theorem filterMap_length_le (h : ∀ a ∈ l, g a = none ∨ g a = f a) :
    (l.filterMap g).length ≤ (l.filterMap f).length := by
  induction l with
  | nil => exact le_refl _
  | cons a l ih =>
    obtain ⟨ha, hl⟩ := List.forall_mem_cons.mp h
    have hrest := ih hl
    rcases ha with ha | ha
    · rw [List.filterMap_cons_none ha]
      cases hf : f a with
      | none => rwa [List.filterMap_cons_none hf]
      | some b =>
        rw [List.filterMap_cons_some hf, List.length_cons]
        omega
    · cases hf : f a with
      | none => rwa [List.filterMap_cons_none hf, List.filterMap_cons_none (ha.trans hf)]
      | some b =>
        rw [List.filterMap_cons_some hf, List.filterMap_cons_some (ha.trans hf)]
        exact Nat.succ_le_succ hrest

/-- What drops some of the values and keeps as many has kept them all. -/
theorem filterMap_pointwise (h : ∀ a ∈ l, g a = none ∨ g a = f a)
    (hlen : (l.filterMap f).length ≤ (l.filterMap g).length) : ∀ a ∈ l, g a = f a := by
  induction l with
  | nil => exact fun a ha => absurd ha List.not_mem_nil
  | cons a l ih =>
    obtain ⟨ha, hl⟩ := List.forall_mem_cons.mp h
    have hle := filterMap_length_le hl
    have hsame : g a = f a ∧ (l.filterMap f).length ≤ (l.filterMap g).length := by
      cases hf : f a with
      | none =>
        have hg : g a = none := ha.elim id fun heq => heq.trans hf
        rw [List.filterMap_cons_none hf, List.filterMap_cons_none hg] at hlen
        exact ⟨hg, hlen⟩
      | some b =>
        rcases ha with hg | hg
        · rw [List.filterMap_cons_none hg, List.filterMap_cons_some hf, List.length_cons] at hlen
          omega
        · rw [List.filterMap_cons_some hf, List.filterMap_cons_some (hg.trans hf)] at hlen
          exact ⟨hg.trans hf, Nat.le_of_succ_le_succ hlen⟩
    exact List.forall_mem_cons.mpr ⟨hsame.1, ih hl hsame.2⟩

end Column

section Frame

variable (host : Host) (rt : Runtime) (kind : Kind)

/-- The text of a timestamp the server accepted. -/
def AcceptedTime (c : Cell) : Prop := ∃ s, c = .text s ∧ s ≠ "" ∧ (rt.parseIso s).isSome

/-- A text the server accepts reads in the layout of another one as it does in its own, or not at all. -/
def Host.Coerces (rt : Runtime) : Prop :=
  ∀ first s, (rt.parseIso first).isSome → (rt.parseIso s).isSome →
    host.parse (host.infer first) s = none ∨
      host.parse (host.infer first) s = host.parse (host.infer s) s

/-- The frame row of a row on its own. -/
def ownRow (r : Row) : Option FrameRow := frameRow host kind (layoutOf host [r.get (tsColumn kind)]) r

/-- Every row that can be read on its own is in the frame, in its place. -/
def JudgedAlone (rows : List Row) : Prop := (rows.filterMap (ownRow host kind)).Sublist (frame host kind rows)

/-- The timestamp of a row reads in the layout of the first timestamp of the rows. -/
def InLayout (rows : List Row) (r : Row) : Prop :=
  (readTime host (layoutOf host (rows.map (·.get (tsColumn kind)))) (r.get (tsColumn kind))).isSome

variable {host rt kind} {rows : List Row}

theorem frameRow_isSome {layout : Option host.Layout} {r : Row} :
    (frameRow host kind layout r).isSome ↔
      (readTime host layout (r.get (tsColumn kind))).isSome ∧ r.get "node_id" ≠ .null := by
  rw [frameRow]
  cases readTime host layout (r.get (tsColumn kind)) with
  | none => simp
  | some ts => by_cases hnode : r.get "node_id" = .null <;> simp [hnode]

theorem frameRow_congr {layout layout' : Option host.Layout} {r : Row}
    (h : readTime host layout (r.get (tsColumn kind)) = readTime host layout' (r.get (tsColumn kind))) :
    frameRow host kind layout r = frameRow host kind layout' r := by
  rw [frameRow, frameRow, h]

/-- Reading a column either reads a timestamp as on its own or loses it. -/
theorem readTime_column (hcoerces : host.Coerces rt) {column : List Cell}
    (haccepted : ∀ c ∈ column, AcceptedTime rt c) {c : Cell} (hc : c ∈ column) :
    readTime host (layoutOf host column) c = none ∨ readTime host (layoutOf host column) c = ownTime host c := by
  obtain ⟨s, rfl, hne, hs⟩ := haccepted c hc
  have htext : ∀ s, s ≠ "" → someText (.text s) = some s := fun s h => if_neg h
  cases column with
  | nil => cases hc
  | cons first column =>
    obtain ⟨s₀, rfl, hne₀, hs₀⟩ := haccepted first List.mem_cons_self
    have hlayout : layoutOf host (.text s₀ :: column) = some (host.infer s₀) := by
      simp [layoutOf, htext s₀ hne₀]
    have hown : layoutOf host [.text s] = some (host.infer s) := by simp [layoutOf, htext s hne]
    simp only [ownTime, hlayout, hown, readTime, htext s hne]
    exact hcoerces s₀ s hs₀ hs

/-- Every row is judged on its own exactly where each row that can be read on its own has a timestamp in
the layout of the first one. -/
theorem judgedAlone_iff (host : Host) (rt : Runtime) (kind : Kind) (hcoerces : host.Coerces rt)
    (rows : List Row) (haccepted : ∀ r ∈ rows, AcceptedTime rt (r.get (tsColumn kind))) :
    JudgedAlone host kind rows ↔ ∀ r ∈ rows, (ownRow host kind r).isSome → InLayout host kind rows r := by
  have hcolumn : ∀ c ∈ rows.map (·.get (tsColumn kind)), AcceptedTime rt c := by
    rintro c hc
    obtain ⟨r, hr, rfl⟩ := List.mem_map.mp hc
    exact haccepted r hr
  have hread : ∀ r ∈ rows,
      readTime host (layoutOf host (rows.map (·.get (tsColumn kind)))) (r.get (tsColumn kind)) = none ∨
      readTime host (layoutOf host (rows.map (·.get (tsColumn kind)))) (r.get (tsColumn kind)) =
        ownTime host (r.get (tsColumn kind)) :=
    fun r hr => readTime_column hcoerces hcolumn (List.mem_map_of_mem hr)
  have hrow : ∀ r ∈ rows,
      frameRow host kind (layoutOf host (rows.map (·.get (tsColumn kind)))) r = none ∨
      frameRow host kind (layoutOf host (rows.map (·.get (tsColumn kind)))) r = ownRow host kind r := by
    intro r hr
    rcases hread r hr with hnone | hsame
    · exact Or.inl (by rw [frameRow, hnone])
    · exact Or.inr (frameRow_congr hsame)
  constructor
  · intro hsub r hr hown
    have hkept := filterMap_pointwise hrow hsub.length_le r hr
    rw [← hkept, frameRow_isSome] at hown
    exact hown.1
  · intro hlayout
    have hsame : frame host kind rows = rows.filterMap (ownRow host kind) := by
      refine List.filterMap_congr fun r hr => ?_
      rcases hrow r hr with hnone | hsame
      · cases hown : ownRow host kind r with
        | none => exact hnone
        | some fr =>
          have hin := hlayout r hr (by rw [hown]; rfl)
          have hnode : r.get "node_id" ≠ .null := (frameRow_isSome.mp (by rw [← ownRow, hown]; rfl)).2
          have hkept := frameRow_isSome.mpr ⟨hin, hnode⟩
          rw [hnone] at hkept
          cases hkept
      · exact hsame
    rw [JudgedAlone, hsame]

end Frame

/-- The layouts `YYYY-MM-DDTHH:MM:SSZ` and `YYYY-MM-DDTHH:MM:SS.mmmZ` of ISO-8601. -/
def isoText (s : String) : Option DateTime :=
  let cs := s.toList
  if cs.length = 24 ∧ cs.getD 19 ' ' = '.' then
    match Runtime.isoSeconds (String.ofList (cs.take 19 ++ ['Z'])), Runtime.digits ((cs.drop 20).take 3) with
    | some dt, some millis => some { dt with microsecond := millis * 1000 }
    | _, _ => none
  else Runtime.isoSeconds s

/-- A host for concrete runs, which tells the two layouts apart by the dot. -/
def Host.dotted : Host :=
  { Host.july with
    Layout := Bool
    infer := fun s => decide ('.' ∈ s.toList)
    parse := fun layout s => if decide ('.' ∈ s.toList) = layout then (isoText s).map instantOf else none }

def dottedRuntime : Runtime := { Runtime.ascii with parseIso := isoText }

theorem dotted_coerces : Host.dotted.Coerces dottedRuntime := by
  intro first s _ _
  by_cases h : decide ('.' ∈ s.toList) = decide ('.' ∈ first.toList)
  · exact Or.inr (by simp only [Host.dotted, h])
  · exact Or.inl (by simp only [Host.dotted, if_neg h])

/-- A staged row of a node. -/
def stagedAt (ts : String) : Row := [("node_id", .text "n1"), ("ts_utc", .text ts), ("phase", .text "1p")]

theorem stagedAt_accepted {rows : List Row}
    (h : ∀ r ∈ rows, ∃ ts, r = stagedAt ts ∧ ts ≠ "" ∧ (isoText ts).isSome) :
    ∀ r ∈ rows, AcceptedTime dottedRuntime (r.get (tsColumn .electrical)) := by
  intro r hr
  obtain ⟨ts, rfl, hne, hts⟩ := h r hr
  exact ⟨ts, rfl, hne, hts⟩

def homeAssistantRows : List Row := [stagedAt "2026-07-10T09:00:00.250Z", stagedAt "2026-07-10T09:00:30.250Z"]

theorem judgedAlone_iff_homeAssistantRows :
    JudgedAlone .dotted .electrical homeAssistantRows ∧ (frame .dotted .electrical homeAssistantRows).length = 2 := by
  have haccepted : ∀ r ∈ homeAssistantRows, AcceptedTime dottedRuntime (r.get (tsColumn .electrical)) := by
    refine stagedAt_accepted fun r hr => ?_
    rcases List.mem_pair.mp hr with rfl | rfl <;> exact ⟨_, rfl, by decide, by decide +kernel⟩
  refine ⟨(judgedAlone_iff .dotted dottedRuntime .electrical dotted_coerces _ haccepted).mpr ?_,
    by decide +kernel⟩
  intro r hr _
  rcases List.mem_pair.mp hr with rfl | rfl <;> unfold InLayout <;> decide +kernel

/-- A timestamp of whole seconds after one with milliseconds is dropped. -/
theorem whole_seconds_dropped :
    ¬∀ (host : Host) (rt : Runtime) (kind : Kind) (rows : List Row), host.Coerces rt →
        (∀ r ∈ rows, AcceptedTime rt (r.get (tsColumn kind))) → JudgedAlone host kind rows := by
  intro h
  have haccepted : ∀ r ∈ [stagedAt "2026-07-10T09:00:00.250Z", stagedAt "2026-07-10T09:00:30Z"],
      AcceptedTime dottedRuntime (r.get (tsColumn .electrical)) := by
    refine stagedAt_accepted fun r hr => ?_
    rcases List.mem_pair.mp hr with rfl | rfl <;> exact ⟨_, rfl, by decide, by decide +kernel⟩
  have hsub := (h .dotted dottedRuntime .electrical _ dotted_coerces haccepted).length_le
  revert hsub
  decide +kernel

end GridWitness.Acquirer
