import GridWitness.Client.OverlapLaws

namespace GridWitness.Client

open Server Library

universe u

variable {Line : Type u} {py : Python} {codec : Codec Line}

/-- Where every line is readable, a peek gives the items of the first lines in their order. -/
theorem Codec.items_eq {ls : List Line} (h : ∀ l ∈ ls, ∃ item, codec.item l = .value item) {n : Nat}
    {chunk : List Item} (hchunk : codec.items n ls = .ok chunk) :
    (ls.take chunk.length).map codec.item = chunk.map .value := by
  induction ls generalizing n chunk with
  | nil => cases n <;> cases hchunk <;> rfl
  | cons l ls ih =>
    cases n with
    | zero =>
      cases hchunk
      rfl
    | succ n =>
      obtain ⟨item, hitem⟩ := h l List.mem_cons_self
      have hreadable : ∀ l ∈ ls, ∃ item, codec.item l = .value item :=
        fun l hl => h l (List.mem_cons_of_mem _ hl)
      obtain ⟨rest, hrest⟩ := Codec.items_of_readable hreadable n
      simp only [Codec.items, hitem, hrest] at hchunk
      cases hchunk
      simp [hitem, ih hreadable hrest]

namespace Flush

/-- The chunk a flush has read and not yet committed. -/
def held (f : Flush) : Option (List Item) :=
  match f.phase with
  | .push chunk => some chunk
  | .commit chunk _ => some chunk
  | _ => none

def Over (f : Flush) : Prop := ∃ raised, f.phase = .ended raised

/-- The chunk a flush holds is still what the first lines of the file say. -/
def Ahead (codec : Codec Line) (lines : List Line) (f : Flush) : Prop :=
  ∀ chunk, f.held = some chunk → (lines.take chunk.length).map codec.item = chunk.map .value

variable {f : Flush} {lines : List Line}

theorem held_of_over (h : f.Over) : f.held = none := by
  obtain ⟨raised, hphase⟩ := h
  simp [held, hphase]

theorem ahead_of_held (h : f.held = none) : f.Ahead codec lines := by
  intro chunk hchunk
  rw [h] at hchunk
  cases hchunk

theorem Ahead.append (h : f.Ahead codec lines) (more : List Line) :
    f.Ahead codec (lines ++ more) := by
  intro chunk hchunk
  have hlength := congrArg List.length (h chunk hchunk)
  rw [List.length_map, List.length_map, List.length_take] at hlength
  rw [List.take_append_of_le_length (by omega)]
  exact h chunk hchunk

theorem Ahead.aligned {c : Coordinator Line} (h : f.Ahead codec c.buffer.lines) :
    f.Aligned codec c := by
  obtain ⟨batch, phase⟩ := f
  cases phase with
  | commit chunk answer =>
    intro l hl
    have hvalue : codec.item l ∈ chunk.map Reading.value := by
      rw [← h chunk rfl]
      exact List.mem_map_of_mem hl
    obtain ⟨item, hitem, heq⟩ := List.mem_map.mp hvalue
    exact ⟨item, hitem, heq.symm⟩
  | _ => trivial

end Flush

section Step

variable {c c' : Coordinator Line} {f f' : Flush} {a : Answer} {effect : Option (Effect Line)}

/-- Only a commit takes lines from the file. -/
theorem move_lines (hmove : Move py codec c f a c' f' effect)
    (hsupposed : f.Supposed py codec c a) :
    (∃ more, c'.buffer.lines = c.buffer.lines ++ more) ∨
      ∃ chunk answer, f.phase = .commit chunk answer := by
  cases hmove with
  | commit chunk answer hphase => exact Or.inr ⟨chunk, answer, hphase⟩
  | append drained hphase => exact Or.inl ⟨_, DiskBuffer.lines_append _ _⟩
  | pruned drained buffer dropped phase hphase hprune =>
    simp only [Flush.Supposed, hphase] at hsupposed
    obtain ⟨buffer', hnone⟩ := hsupposed
    rw [hprune] at hnone
    cases hnone
    exact Or.inl ⟨[], by rw [DiskBuffer.prune_zero hprune, List.append_nil]⟩
  | _ => exact Or.inl ⟨[], (List.append_nil _).symm⟩

theorem move_ahead (hmove : Move py codec c f a c' f' effect) (hintact : Intact codec c.buffer.lines)
    (hahead : f.Ahead codec c.buffer.lines) : f'.Ahead codec c'.buffer.lines := by
  cases hmove with
  | peekChunk chunk hphase hpeek hchunk =>
    rintro held ⟨⟩
    exact Codec.items_eq (fun l hl => (hintact l hl).imp' Captured.item fun _ => id) hpeek
  | pushSettled chunk total hphase hsettles =>
    rintro held ⟨⟩
    exact hahead chunk (by simp [Flush.held, hphase])
  | pruned drained buffer dropped phase hphase hprune hphase' =>
    cases drained <;> subst hphase' <;> exact Flush.ahead_of_held rfl
  | ended raised hphase => exact hahead
  | _ => exact Flush.ahead_of_held rfl

theorem move_over (hmove : Move py codec c f a c' f' effect) (hover : f.Over) : f'.Over := by
  obtain ⟨raised, hphase⟩ := hover
  cases hmove with
  | ended => exact ⟨raised, hphase⟩
  | _ => simp_all

end Step

namespace World

variable (x : World Line)

/-- A commit comes while no other flush holds a chunk. -/
def Alone : Event → Prop
  | .resume i _ =>
    ∀ (f : Flush) chunk answer, x.flushes[i]? = some f → f.phase = .commit chunk answer →
      ∀ j (g : Flush), x.flushes[j]? = some g → j ≠ i → g.held = none
  | _ => True

/-- The timer starts a flush only when every earlier one is over. -/
def Serial : Event → Prop
  | .timer => ∀ f ∈ x.flushes, f.Over
  | _ => True

def Ahead (codec : Codec Line) : Prop :=
  ∀ f ∈ x.flushes, f.Ahead codec x.coordinator.buffer.lines

/-- At most one flush is in progress. -/
def Single : Prop :=
  ∀ (i j : Nat) (f g : Flush), x.flushes[i]? = some f → x.flushes[j]? = some g → j ≠ i → f.Over ∨ g.Over

variable {x}

theorem aligned_of_ahead (hahead : x.Ahead codec) (e : Event) : x.Aligned codec e := by
  cases e with
  | resume i a =>
    cases hf : x.flushes[i]? with
    | none => simp only [Aligned, hf]
    | some f =>
      simp only [Aligned, hf]
      exact (hahead f (List.mem_of_getElem? hf)).aligned
  | _ => trivial

theorem step_ahead (hintact : Intact codec x.coordinator.buffer.lines) (hahead : x.Ahead codec)
    (e : Event) (hsupposed : x.Supposed py codec e) (halone : x.Alone e) :
    (x.step py codec e).Ahead codec := by
  cases e with
  | capture rows => exact hahead
  | timer =>
    intro f hf
    rcases List.mem_append.mp hf with hf | hf
    · exact hahead f hf
    · cases List.mem_singleton.mp hf
      exact Flush.ahead_of_held rfl
  | resume i a =>
    cases hf : x.flushes[i]? with
    | none =>
      simp only [step, hf]
      exact hahead
    | some f =>
      simp only [Supposed, hf] at hsupposed
      rw [step_resume hf]
      have hmove := resume_move py codec x.coordinator f a
      generalize x.coordinator.resume py codec f a = after at hmove
      obtain ⟨c', f', effect⟩ := after
      intro g hg
      obtain ⟨j, hj⟩ := List.mem_iff_getElem?.mp hg
      by_cases hji : j = i
      · subst hji
        rw [List.getElem?_set_self (List.getElem?_eq_some_iff.mp hf).1] at hj
        cases hj
        exact move_ahead hmove hintact (hahead f (List.mem_of_getElem? hf))
      · rw [List.getElem?_set_ne (Ne.symm hji)] at hj
        -- another flush keeps its place: lines are only added, or it holds no chunk
        rcases move_lines hmove hsupposed with ⟨more, hlines⟩ | ⟨chunk, answer, hphase⟩
        · rw [hlines]
          exact (hahead g (List.mem_of_getElem? hj)).append more
        · exact Flush.ahead_of_held (halone f chunk answer hf hphase j g hj hji)

theorem step_single (hsingle : x.Single) (e : Event) (hserial : x.Serial e) :
    (x.step py codec e).Single := by
  cases e with
  | capture rows => exact hsingle
  | timer =>
    intro i j f g hf hg hji
    have hold : ∀ (k : Nat) (h : Flush), (x.flushes ++ [x.coordinator.onFlush.2])[k]? = some h →
        k ≠ x.flushes.length → h.Over := by
      intro k h hk hne
      rw [List.getElem?_append] at hk
      split at hk
      · exact hserial h (List.mem_of_getElem? hk)
      · have hone : k - x.flushes.length ≠ 0 := by omega
        rw [List.getElem?_singleton, if_neg hone] at hk
        cases hk
    by_cases hi : i = x.flushes.length
    · exact Or.inr (hold j g hg (hi ▸ hji))
    · exact Or.inl (hold i f hf hi)
  | resume i a =>
    cases hf : x.flushes[i]? with
    | none =>
      simp only [step, hf]
      exact hsingle
    | some f =>
      rw [step_resume hf]
      have hmove := resume_move py codec x.coordinator f a
      generalize x.coordinator.resume py codec f a = after at hmove
      obtain ⟨c', f', effect⟩ := after
      have hold : ∀ (k : Nat) (h : Flush), (x.flushes.set i f')[k]? = some h →
          ∃ h' : Flush, x.flushes[k]? = some h' ∧ (h'.Over → h.Over) := by
        intro k h hk
        by_cases hki : k = i
        · subst hki
          rw [List.getElem?_set_self (List.getElem?_eq_some_iff.mp hf).1] at hk
          cases hk
          exact ⟨f, hf, move_over hmove⟩
        · rw [List.getElem?_set_ne (Ne.symm hki)] at hk
          exact ⟨h, hk, id⟩
      intro j k g h hg hh hkj
      obtain ⟨g', hg', hgover⟩ := hold j g hg
      obtain ⟨h', hh', hhover⟩ := hold k h hh
      exact (hsingle j k g' h' hg' hh' hkj).imp hgover hhover

theorem alone_of_single (hsingle : x.Single) (e : Event) : x.Alone e := by
  cases e with
  | resume i a =>
    intro f chunk answer hf hphase j g hg hji
    rcases hsingle i j f g hf hg hji with ⟨raised, hover⟩ | hover
    · rw [hphase] at hover
      cases hover
    · exact Flush.held_of_over hover
  | _ => trivial

end World

section Run

variable {c : Coordinator Line} {buffered : List Captured} {events : List Event}

/-- Where no flush commits while another holds a chunk, each commit finds its own chunk. -/
theorem alone_aligned (hintact : Intact codec c.buffer.lines)
    (hbuffered : ∀ r ∈ buffered, Buffered codec c.buffer.lines r)
    (h : Trace.Along (World.step py codec) (fun x e => x.Supposed py codec e ∧ x.Alone e)
      (.start c buffered) events) :
    Trace.Along (World.step py codec) (fun x e => x.Supposed py codec e ∧ x.Aligned codec e)
      (.start c buffered) events := by
  refine h.imp (I := fun x => x.Inv py codec ∧ x.Ahead codec) (fun x e hx he => ?_)
    (fun x e hx he => ⟨he.1, World.aligned_of_ahead hx.2 e⟩)
    ⟨World.start_inv hintact hbuffered, nofun⟩
  exact ⟨World.step_inv hx.1 e he.1 (World.aligned_of_ahead hx.2 e),
    World.step_ahead hx.1.intact hx.2 e he.1 he.2⟩

/-- Flushes that never overlap meet the condition. -/
theorem serial_alone
    (h : Trace.Along (World.step py codec) (fun x e => x.Supposed py codec e ∧ x.Serial e)
      (.start c buffered) events) :
    Trace.Along (World.step py codec) (fun x e => x.Supposed py codec e ∧ x.Alone e)
      (.start c buffered) events :=
  h.imp (I := World.Single) (fun _ e hx he => World.step_single hx e he.2)
    (fun _ e hx he => ⟨he.1, World.alone_of_single hx e⟩) nofun

/-- A client whose flushes each end before the next one starts loses no row. -/
theorem serial_safe (hintact : Intact codec c.buffer.lines)
    (hbuffered : ∀ r ∈ buffered, Buffered codec c.buffer.lines r)
    (h : Trace.Along (World.step py codec) (fun x e => x.Supposed py codec e ∧ x.Serial e)
      (.start c buffered) events) :
    (events.foldl (World.step py codec) (.start c buffered)).Safe py codec :=
  World.run_safe hintact hbuffered (alone_aligned hintact hbuffered (serial_alone h))

end Run

end GridWitness.Client
