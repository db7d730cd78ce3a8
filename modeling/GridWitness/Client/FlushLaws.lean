import GridWitness.Client.Process
import GridWitness.Client.StepLaws
import GridWitness.Library.Trace

namespace GridWitness.Client

open Server Library

universe u

variable {Line : Type u} (py : Python) (codec : Codec Line)

/-- The lines hold an item. -/
def Readable (ls : List Line) : Prop := ∃ l ∈ ls, ∃ item, codec.item l = .value item

section Trace

variable (trace : List (Effect Line))

/-- What became of a row of the batch. -/
def Acknowledged (r : Captured) : Prop :=
  ∃ batch answer, .sent batch answer ∈ trace ∧ r ∈ batch ∧ answer.acknowledges

def Refused (r : Captured) : Prop :=
  ∃ batch answer, .sent batch answer ∈ trace ∧ r ∈ batch ∧ answer.refuses

/-- A row that was appended is still in the file unless a prune dropped some. -/
def Spilled (lines : List Line) (r : Captured) : Prop :=
  (∃ batch, .appended batch ∈ trace ∧ r ∈ batch) ∧
    ((∀ n, .pruned n ∈ trace → n = 0) → ∃ l ∈ lines, codec.item l = .value r.item)

/-- No row leaves the buffer but with a chunk that was acknowledged or refused. -/
def BufferKept : Prop :=
  ∀ lines answer, .committed lines answer ∈ trace → Readable codec lines →
    answer.acknowledges ∨ answer.refuses

/-- Nothing has become of the batch yet. -/
def Untouched : Prop :=
  ∀ batch, .appended batch ∉ trace ∧ ∀ answer, .sent batch answer ∉ trace

/-- No row of a batch is lost. -/
def BatchKept (lines : List Line) (batch : List Captured) : Prop :=
  ∀ r ∈ batch, Acknowledged trace r ∨ Spilled codec trace lines r ∨ Refused trace r

end Trace

section Kept

variable {codec} {trace : List (Effect Line)} {batch : List Captured} {answer : Exchange}
  {lines : List Line}

theorem bufferKept_cons {effect : Effect Line} (h : ∀ lines answer, effect ≠ .committed lines answer) :
    BufferKept codec (effect :: trace) ↔ BufferKept codec trace := by
  refine ⟨fun hkept lines answer hmem => hkept lines answer (List.mem_cons_of_mem _ hmem),
    fun hkept lines answer hmem => ?_⟩
  rcases List.mem_cons.mp hmem with heq | hmem
  · exact absurd heq.symm (h lines answer)
  · exact hkept lines answer hmem

theorem bufferKept_committed :
    BufferKept codec (.committed lines answer :: trace) ↔
      BufferKept codec trace ∧ (Readable codec lines → answer.acknowledges ∨ answer.refuses) := by
  constructor
  · intro hkept
    exact ⟨fun lines answer hmem => hkept lines answer (List.mem_cons_of_mem _ hmem),
      hkept lines answer List.mem_cons_self⟩
  · rintro ⟨hkept, hlast⟩ lines answer hmem
    rcases List.mem_cons.mp hmem with heq | hmem
    · cases heq
      exact hlast
    · exact hkept lines answer hmem

theorem Untouched.cons {effect : Effect Line} (h : Untouched trace)
    (happended : ∀ batch, effect ≠ .appended batch)
    (hsent : ∀ batch answer, effect ≠ .sent batch answer) : Untouched (effect :: trace) := by
  refine fun batch => ⟨fun hmem => ?_, fun answer hmem => ?_⟩
  · rcases List.mem_cons.mp hmem with heq | hmem
    · exact happended batch heq.symm
    · exact (h batch).1 hmem
  · rcases List.mem_cons.mp hmem with heq | hmem
    · exact hsent batch answer heq.symm
    · exact (h batch).2 answer hmem

/-- A flush that did nothing with its batch keeps the empty one only. -/
theorem Untouched.batchKept (h : Untouched trace) : BatchKept codec trace lines batch ↔ batch = [] := by
  constructor
  · intro hkept
    refine List.eq_nil_iff_forall_not_mem.mpr fun r hr => ?_
    rcases hkept r hr with ⟨b, answer, hsent, -⟩ | ⟨⟨b, happended, -⟩, -⟩ | ⟨b, answer, hsent, -⟩
    · exact (h b).2 answer hsent
    · exact (h b).1 happended
    · exact (h b).2 answer hsent
  · rintro rfl r hr
    exact absurd hr List.not_mem_nil

/-- A batch sent once is as safe as the answer makes it. -/
theorem Untouched.batchKept_sent (h : Untouched trace) (hbatch : batch ≠ []) :
    BatchKept codec (.sent batch answer :: trace) lines batch ↔
      answer.acknowledges ∨ answer.refuses := by
  have hanswer : ∀ b other, .sent b other ∈ Effect.sent batch answer :: trace → other = answer := by
    intro b other hmem
    rcases List.mem_cons.mp hmem with heq | hmem
    · cases heq
      rfl
    · exact absurd hmem ((h b).2 other)
  constructor
  · intro hkept
    obtain ⟨r, hr⟩ := List.exists_mem_of_ne_nil batch hbatch
    rcases hkept r hr with ⟨b, other, hsent, -, hother⟩ | ⟨⟨b, happended, -⟩, -⟩ |
      ⟨b, other, hsent, -, hother⟩
    · exact Or.inl (hanswer b other hsent ▸ hother)
    · exact absurd (by simpa using happended) (h b).1
    · exact Or.inr (hanswer b other hsent ▸ hother)
  · rintro (hack | hrefuses) r hr
    · exact Or.inl ⟨batch, answer, List.mem_cons_self, hr, hack⟩
    · exact Or.inr (Or.inr ⟨batch, answer, List.mem_cons_self, hr, hrefuses⟩)

/-- A row appended just now is in the file. -/
theorem spilled_append {b : DiskBuffer Line} {nowIso : String} {r : Captured} (hr : r ∈ batch) :
    Spilled codec (.appended batch :: trace) (b.append codec batch nowIso).lines r := by
  refine ⟨⟨batch, List.mem_cons_self, hr⟩, fun _ => ⟨codec.record nowIso r, ?_, ?_⟩⟩
  · rw [DiskBuffer.lines_append]
    exact List.mem_append_right _ (List.mem_map_of_mem hr)
  · exact Codec.item_record nowIso r

/-- A prune leaves a row where it was, or says that it dropped some. -/
theorem spilled_pruned {py : Python} {now : Time} {b b' : DiskBuffer Line} {dropped : Nat}
    {r : Captured} (hprune : b.prune codec py now = .ok (b', dropped))
    (h : Spilled codec trace b.lines r) : Spilled codec (.pruned dropped :: trace) b'.lines r := by
  obtain ⟨⟨batch, happended, hr⟩, hin⟩ := h
  refine ⟨⟨batch, List.mem_cons_of_mem _ happended, hr⟩, fun hnone => ?_⟩
  have hzero : dropped = 0 := hnone dropped List.mem_cons_self
  subst hzero
  have hsame : b' = b := DiskBuffer.prune_zero hprune
  subst hsame
  exact hin fun n hn => hnone n (List.mem_cons_of_mem _ hn)

end Kept

namespace Attempt

variable (s : Attempt Line)

/-- Neither the batch nor the buffer has lost a row. -/
def Kept : Prop :=
  BufferKept codec s.trace ∧ BatchKept codec s.trace s.coordinator.buffer.lines s.flush.batch

/-- The next step goes wrong for no row: no other exception leaves the flush while it holds a batch,
and no answer below 400 that is no success passes for one. -/
def Sound (a : Answer) : Prop :=
  match s.flush.phase with
  | .peek => s.flush.batch = [] ∨ ∃ chunk, s.coordinator.buffer.peek codec drainChunk = .ok chunk
  | .push chunk =>
    (s.flush.batch = [] ∨ a.exchange.Handled py) ∧
      (a.exchange.Handled py → Readable codec (s.coordinator.buffer.lines.take chunk.length) →
        a.exchange.acknowledges ∨ a.exchange.fails)
  | .send => a.exchange.acknowledges ∨ a.exchange.Handled py ∧ a.exchange.fails
  | _ => True

/-- What holds at each await, whatever the answers. -/
def Shape : Prop :=
  match s.flush.phase with
  | .peek => Untouched s.trace
  | .push chunk | .commit chunk _ =>
    Untouched s.trace ∧ chunk ≠ [] ∧ s.coordinator.buffer.lines ≠ []
  | .send => Untouched s.trace ∧ s.flush.batch ≠ []
  | .prune _ => ∀ r ∈ s.flush.batch, Spilled codec s.trace s.coordinator.buffer.lines r
  | .append _ | .echo | .ended _ => True

/-- All is well so far. -/
def Well : Prop :=
  BufferKept codec s.trace ∧
    match s.flush.phase with
    | .commit chunk answer => Readable codec (s.coordinator.buffer.lines.take chunk.length) →
        answer.acknowledges ∨ answer.refuses
    | .echo | .ended _ => BatchKept codec s.trace s.coordinator.buffer.lines s.flush.batch
    | _ => True

variable {py codec s}

theorem start_shape (c : Coordinator Line) : (start c).Shape codec :=
  fun _ => ⟨List.not_mem_nil, fun _ => List.not_mem_nil⟩

theorem start_well (c : Coordinator Line) : (start c).Well codec :=
  ⟨fun _ _ h => absurd h List.not_mem_nil, trivial⟩

theorem step_move (py : Python) (codec : Codec Line) (s : Attempt Line) (a : Answer) :
    ∃ effect, Move py codec s.coordinator s.flush a (s.step py codec a).coordinator
      (s.step py codec a).flush effect ∧ (s.step py codec a).trace = effect.toList ++ s.trace :=
  ⟨_, resume_move py codec s.coordinator s.flush a, rfl⟩

theorem shape_step (hs : s.Shape codec) (a : Answer) : (s.step py codec a).Shape codec := by
  obtain ⟨effect, hmove, htrace⟩ := step_move py codec s a
  generalize s.step py codec a = s' at hmove htrace
  obtain ⟨c, ⟨batch, phase⟩, trace⟩ := s
  obtain ⟨c', f', trace'⟩ := s'
  subst htrace
  cases hmove with
  | peekRaised e hphase hpeek => trivial
  | peekNothing hphase hpeek hbatch => trivial
  | peekEmpty hphase hpeek hbatch =>
    cases hphase
    exact ⟨hs, hbatch⟩
  | peekChunk chunk hphase hpeek hchunk =>
    cases hphase
    exact ⟨hs, hchunk, Codec.items_of_ne_nil hpeek hchunk⟩
  | pushSettled chunk total hphase hsettles =>
    cases hphase
    exact ⟨hs.1.cons nofun nofun, hs.2⟩
  | pushFailed chunk hphase hhandled hfails hbatch => trivial
  | pushOffline chunk hphase hhandled hfails hbatch => trivial
  | pushRaised chunk e hphase hhandled => trivial
  | commit chunk answer hphase =>
    cases hphase
    exact hs.1.cons nofun nofun
  | sendSettled total online hphase hsettles => trivial
  | sendFailed hphase hhandled hfails => trivial
  | sendRaised e hphase hhandled => trivial
  | append drained hphase =>
    cases hphase
    exact fun r hr => spilled_append hr
  | pruneRaised drained e hphase hprune => trivial
  | pruned drained buffer dropped phase' hphase hprune hphase' =>
    cases drained <;> subst hphase' <;> trivial
  | echo hphase => trivial
  | ended raised hphase =>
    cases hphase
    trivial

theorem settles_iff {ex : Exchange} (h : ex.Settles py) :
    ex.acknowledges ∨ ex.refuses ↔ ex.acknowledges ∨ ex.fails := by
  refine or_congr_right ⟨Exchange.fails_of_refuses, fun hfails => ?_⟩
  exact h.resolve_left fun hok => hok.2 hfails

theorem settles_handled {ex : Exchange} (h : ex.Settles py) : ex.Handled py :=
  h.elim And.left Exchange.handled_of_refuses

/-- Whatever the step, all is well after it exactly when all was well and the step was sound. -/
theorem well_step (hs : s.Shape codec) (a : Answer) :
    (s.step py codec a).Well codec ↔ s.Well codec ∧ s.Sound py codec a := by
  obtain ⟨effect, hmove, htrace⟩ := step_move py codec s a
  generalize s.step py codec a = s' at hmove htrace
  obtain ⟨c, ⟨batch, phase⟩, trace⟩ := s
  obtain ⟨c', f', trace'⟩ := s'
  subst htrace
  cases hmove with
  | peekRaised e hphase hpeek =>
    cases hphase
    have hbatch : BatchKept codec trace c.buffer.lines batch ↔ batch = [] := Untouched.batchKept hs
    simp [Well, Sound, hbatch, hpeek]
  | peekNothing hphase hpeek hbatch =>
    cases hphase
    have hbatch : batch = [] := hbatch
    simp [Well, Sound, hbatch, BatchKept]
  | peekEmpty hphase hpeek hbatch =>
    cases hphase
    simp [Well, Sound, hpeek]
  | peekChunk chunk hphase hpeek hchunk =>
    cases hphase
    simp [Well, Sound, hpeek]
  | pushSettled chunk total hphase hsettles =>
    cases hphase
    have hbuffer : BufferKept codec (.drained chunk a.exchange :: trace) ↔ BufferKept codec trace :=
      bufferKept_cons nofun
    simp [Well, Sound, hbuffer, settles_iff hsettles, settles_handled hsettles]
  | pushFailed chunk hphase hhandled hfails hbatch =>
    cases hphase
    have hbuffer : BufferKept codec (.drained chunk a.exchange :: trace) ↔ BufferKept codec trace :=
      bufferKept_cons nofun
    simp [Well, Sound, hbuffer, hhandled, hfails]
  | pushOffline chunk hphase hhandled hfails hbatch =>
    cases hphase
    have hbuffer : BufferKept codec (.drained chunk a.exchange :: trace) ↔ BufferKept codec trace :=
      bufferKept_cons nofun
    have hbatch : batch = [] := hbatch
    simp [Well, Sound, hbuffer, hhandled, hfails, hbatch, BatchKept]
  | pushRaised chunk e hphase hhandled =>
    cases hphase
    have hbuffer : BufferKept codec (.drained chunk a.exchange :: trace) ↔ BufferKept codec trace :=
      bufferKept_cons nofun
    have huntouched : Untouched (.drained chunk a.exchange :: trace) := hs.1.cons nofun nofun
    have hbatch : BatchKept codec (.drained chunk a.exchange :: trace) c.buffer.lines batch ↔
        batch = [] := huntouched.batchKept
    simp [Well, Sound, hbuffer, hbatch, hhandled]
  | commit chunk answer hphase =>
    cases hphase
    simp [Well, Sound, bufferKept_committed]
  | sendSettled total online hphase hsettles =>
    cases hphase
    have hbuffer : BufferKept codec (.sent batch a.exchange :: trace) ↔ BufferKept codec trace :=
      bufferKept_cons nofun
    have hbatch : BatchKept codec (.sent batch a.exchange :: trace) c.buffer.lines batch ↔
        a.exchange.acknowledges ∨ a.exchange.refuses := hs.1.batchKept_sent hs.2
    simp [Well, Sound, hbuffer, hbatch, settles_iff hsettles, settles_handled hsettles]
  | sendFailed hphase hhandled hfails =>
    cases hphase
    have hbuffer : BufferKept codec (.sent batch a.exchange :: trace) ↔ BufferKept codec trace :=
      bufferKept_cons nofun
    simp [Well, Sound, hbuffer, hhandled, hfails]
  | sendRaised e hphase hhandled =>
    cases hphase
    have hbuffer : BufferKept codec (.sent batch a.exchange :: trace) ↔ BufferKept codec trace :=
      bufferKept_cons nofun
    have hbatch : BatchKept codec (.sent batch a.exchange :: trace) c.buffer.lines batch ↔
        a.exchange.acknowledges ∨ a.exchange.refuses := hs.1.batchKept_sent hs.2
    have hrefuses : ¬ a.exchange.refuses := fun h => hhandled (Exchange.handled_of_refuses h)
    simp [Well, Sound, hbuffer, hbatch, hhandled, hrefuses]
  | append drained hphase =>
    cases hphase
    have hbuffer : BufferKept codec (.appended batch :: trace) ↔ BufferKept codec trace :=
      bufferKept_cons nofun
    simp [Well, Sound, hbuffer]
  | pruneRaised drained e hphase hprune =>
    cases hphase
    have hkept : BatchKept codec trace c.buffer.lines batch := fun r hr => Or.inr (Or.inl (hs r hr))
    simp [Well, Sound, hkept]
  | pruned drained buffer dropped phase' hphase hprune hphase' =>
    cases hphase
    have hbuffer : BufferKept codec (.pruned dropped :: trace) ↔ BufferKept codec trace :=
      bufferKept_cons nofun
    have hkept : BatchKept codec (.pruned dropped :: trace) buffer.lines batch :=
      fun r hr => Or.inr (Or.inl (spilled_pruned hprune (hs r hr)))
    cases drained <;> subst hphase' <;> simp [Well, Sound, hbuffer, hkept]
  | echo hphase =>
    cases hphase
    simp [Well, Sound]
  | ended raised hphase =>
    cases hphase
    simp [Well, Sound]

/-- Steps a flush may still take. -/
def remaining : Nat :=
  match s.flush.phase with
  | .peek => 3 * s.coordinator.buffer.lines.length + 5
  | .push _ => 3 * s.coordinator.buffer.lines.length + 4
  | .commit _ _ => 3 * s.coordinator.buffer.lines.length + 3
  | .send => 4
  | .append _ => 3
  | .prune _ => 2
  | .echo => 1
  | .ended _ => 0

theorem remaining_step (hs : s.Shape codec) (a : Answer) :
    (s.step py codec a).remaining ≤ s.remaining - 1 := by
  obtain ⟨effect, hmove, htrace⟩ := step_move py codec s a
  generalize s.step py codec a = s' at hmove htrace
  obtain ⟨c, ⟨batch, phase⟩, trace⟩ := s
  obtain ⟨c', f', trace'⟩ := s'
  subst htrace
  cases hmove with
  | commit chunk answer hphase =>
    cases hphase
    have hchunk : 0 < chunk.length := List.length_pos_of_ne_nil hs.2.1
    have hlines : 0 < c.buffer.lines.length := List.length_pos_of_ne_nil hs.2.2
    simp only [remaining, DiskBuffer.lines_commit, List.length_drop]
    omega
  | pruned drained buffer dropped phase' hphase hprune hphase' =>
    cases hphase
    cases drained <;> subst hphase' <;> simp [remaining]
  | ended raised hphase =>
    cases hphase
    exact le_rfl
  | _ => simp_all [remaining]

theorem step_batch (a : Answer) : (s.step py codec a).flush.batch = s.flush.batch := by
  obtain ⟨effect, hmove, -⟩ := step_move py codec s a
  generalize s.step py codec a = s' at hmove
  obtain ⟨c', f', trace'⟩ := s'
  cases hmove <;> rfl

theorem ended_of_remaining (h : s.remaining = 0) : ∃ raised, s.flush.phase = .ended raised := by
  obtain ⟨c, ⟨batch, phase⟩, trace⟩ := s
  cases phase with
  | ended raised => exact ⟨raised, rfl⟩
  | _ => simp [remaining] at h

/-- A flush that is given enough answers comes to its end. -/
theorem run_remaining (hs : s.Shape codec) (answers : List Answer) :
    (answers.foldl (step py codec) s).remaining ≤ s.remaining - answers.length := by
  induction answers generalizing s with
  | nil => exact le_rfl
  | cons a answers ih =>
    have hstep : (s.step py codec a).remaining ≤ s.remaining - 1 := remaining_step hs a
    have hshape : (s.step py codec a).Shape codec := shape_step hs a
    have hrest := ih hshape
    rw [List.foldl_cons, List.length_cons]
    omega

theorem well_ended {raised : Option PyError} (h : s.flush.phase = .ended raised) :
    s.Well codec ↔ s.Kept codec := by
  simp only [Well, Kept, h]

end Attempt

/-- Every flush comes to its end, and it loses no row of its batch or of the buffer exactly when each
of its steps is sound. -/
theorem flush_kept_iff (py : Python) (codec : Codec Line) (c : Coordinator Line)
    (answers : List Answer) (h : 3 * c.buffer.lines.length + 5 ≤ answers.length) :
    let s := answers.foldl (Attempt.step py codec) (.start c)
    (∃ raised, s.flush = ⟨c.pending, .ended raised⟩) ∧
      (s.Kept codec ↔ Trace.Along (Attempt.step py codec) (Attempt.Sound py codec) (.start c) answers) := by
  intro s
  have hremaining : s.remaining = 0 := by
    have hrun : s.remaining ≤ (Attempt.start c).remaining - answers.length :=
      Attempt.run_remaining (Attempt.start_shape c) answers
    have hstart : (Attempt.start c).remaining = 3 * c.buffer.lines.length + 5 := rfl
    omega
  obtain ⟨raised, hended⟩ := Attempt.ended_of_remaining hremaining
  have hbatch : s.flush.batch = c.pending :=
    Trace.foldl_invariant (I := fun s : Attempt Line => s.flush.batch = c.pending)
      (fun s a hs => (Attempt.step_batch a).trans hs) rfl answers
  refine ⟨⟨raised, by rw [← hbatch, ← hended]⟩, ?_⟩
  rw [← Attempt.well_ended hended]
  have hwell : s.Well codec ↔ (Attempt.start c).Well codec ∧
      Trace.Along (Attempt.step py codec) (Attempt.Sound py codec) (.start c) answers :=
    Trace.Along.iff_of_step (F := Attempt.Shape codec) (fun _ a hs => Attempt.shape_step hs a)
      (fun _ a hs => Attempt.well_step hs a) (Attempt.start_shape c)
  exact hwell.trans (and_iff_right (Attempt.start_well c))

def reading (v : Json) : Captured :=
  (.electrical, .obj [("ts_utc", .str "2026-07-10T09:00:00.000Z"), ("frequency_hz", v)])

/-- A row in memory and another in the buffer. -/
def twoRows : Coordinator Json where
  pending := [reading (.int 50)]
  buffer := ⟨some [Codec.plain.record (Python.july.iso 0) (reading (.int 49))], 250000, 72⟩
  online := false
  samplesTotal := 0

def accepts : Answer := ⟨.response 200 (.json (.obj [("accepted", .int 1)])), 1783674000000000⟩

theorem flush_kept_twoRows :
    ((List.replicate 8 accepts).foldl (Attempt.step .july .plain) (.start twoRows)).Kept .plain := by
  refine (flush_kept_iff .july .plain twoRows (List.replicate 8 accepts) le_rfl).2.mpr ?_
  have hhandled : accepts.exchange.Handled .july := Or.inr fun _ => ⟨_, rfl, 1, rfl⟩
  have hacknowledges : accepts.exchange.acknowledges := ⟨le_rfl, by decide⟩
  exact ⟨Or.inr ⟨_, rfl⟩, ⟨Or.inr hhandled, fun _ _ => Or.inl hacknowledges⟩, trivial,
    Or.inr ⟨_, rfl⟩, Or.inl hacknowledges, trivial, trivial, trivial, trivial⟩

/-- The total timeout of an exchange is no error the client maps: the batch is gone with the flush. -/
theorem timeout_loses_batch :
    ¬ ∀ (py : Python) (codec : Codec Json) (c : Coordinator Json) (answers : List Answer),
      3 * c.buffer.lines.length + 5 ≤ answers.length →
        (answers.foldl (Attempt.step py codec) (.start c)).Kept codec := by
  intro h
  have hkept := (h .july .plain { twoRows with buffer := ⟨none, 250000, 72⟩ }
    (List.replicate 5 ⟨.timeoutError, 1783674000000000⟩) le_rfl).2
  have hbatch : BatchKept .plain [.sent [reading (.int 50)] .timeoutError] [] [reading (.int 50)] :=
    hkept
  have huntouched : Untouched ([] : List (Effect Json)) :=
    fun _ => ⟨List.not_mem_nil, fun _ => List.not_mem_nil⟩
  exact ((huntouched.batchKept_sent (List.cons_ne_nil _ _)).mp hbatch).elim id id

end GridWitness.Client
