import GridWitness.Client.FlushLaws
import GridWitness.Client.QueueLaws

namespace GridWitness.Client

open Server Library

universe u

variable {Line : Type u} {codec : Codec Line} {py : Python}

section Wellformed

variable {ls : List Line}

/-- Where a file of records and torn lines has no item, no line of it decodes. -/
theorem Codec.loads_of_wellFormed_nil (h : ∀ l ∈ ls, codec.RecordOrTorn l)
    (hnone : codec.wellFormed ls = []) : ∀ l ∈ ls, codec.loads l = .undecodable := by
  intro l hl
  refine (h l hl).resolve_right ?_
  rintro ⟨item, hitem⟩
  have hmem : item ∈ codec.wellFormed ls := List.mem_filterMap.mpr ⟨l, hl, by rw [hitem]; rfl⟩
  rw [hnone] at hmem
  cases hmem

variable (codec) in
/-- As many of the first lines as a chunk is long hold no other items than the chunk. -/
theorem Codec.wellFormed_committed (ls : List Line) (n : Nat) :
    let chunk := (codec.wellFormed ls).take n
    codec.wellFormed (ls.take chunk.length) <+: chunk := by
  intro chunk
  have hall : codec.wellFormed (ls.take chunk.length) <+: codec.wellFormed ls := by
    refine ⟨codec.wellFormed (ls.drop chunk.length), ?_⟩
    rw [← Codec.wellFormed_append, List.take_append_drop]
  refine List.prefix_of_prefix_length_le hall (List.take_prefix n _) ?_
  exact (List.length_filterMap_le _ _).trans (List.length_take_le _ _)

end Wellformed

namespace Coordinator

/-- A push was accepted, or refused with an error that is not worth trying again. -/
def Settled (py : Python) (answer : Exchange) : Prop :=
  (∃ accepted, pushItems py answer = .ok accepted) ∨
    ∃ err, pushItems py answer = .error (.api err) ∧ err.retryable = false

/-- A push failed with an error that is worth trying again. -/
def Retries (py : Python) (answer : Exchange) : Prop :=
  ∃ err, pushItems py answer = .error (.api err) ∧ err.retryable = true

section Round

variable {c : Coordinator Line} {chunk : List Item} {a : Exchange} {answers : List Exchange}

theorem drainDisk_nothing (hpeek : c.buffer.peek codec drainChunk = .ok []) :
    c.drainDisk py codec answers = some (c, [], .ok true) := by
  cases answers <;> simp only [drainDisk, hpeek]

variable (answers) in
/-- A push that is settled is a round, the others go over what its commit leaves, and a flush gets there
in three steps: the peek, the push and the commit. -/
theorem drainDisk_settled (hpeek : c.buffer.peek codec drainChunk = .ok chunk) (hchunk : chunk ≠ [])
    (ha : Settled py a) :
    ∃ total, c.drainDisk py codec (a :: answers) =
        (drainDisk py codec { c with buffer := c.buffer.commit chunk.length, samplesTotal := total }
          answers).map (fun (c', rounds, result) =>
            (c', ⟨chunk, a, c.buffer.lines.take chunk.length⟩ :: rounds, result)) ∧
      ∀ (batch : List Captured) (trace : List (Effect Line)),
        (List.replicate 3 (⟨a, 0⟩ : Answer)).foldl (Attempt.step py codec) ⟨c, ⟨batch, .peek⟩, trace⟩ =
          ⟨{ c with buffer := c.buffer.commit chunk.length, samplesTotal := total }, ⟨batch, .peek⟩,
            .committed (c.buffer.lines.take chunk.length) a :: .drained chunk a :: trace⟩ := by
  obtain ⟨item, items, rfl⟩ := List.exists_cons_of_ne_nil hchunk
  rcases ha with ⟨accepted, hpush⟩ | ⟨err, hpush, hretry⟩
  · refine ⟨c.samplesTotal + accepted, ?_, fun batch trace => ?_⟩
    · rw [drainDisk]
      simp only [hpeek, hpush]
    · simp [List.replicate, Attempt.step, resume, hpeek, hpush]
  · refine ⟨c.samplesTotal, ?_, fun batch trace => ?_⟩
    · rw [drainDisk]
      simp only [hpeek, hpush, hretry, Bool.false_eq_true, if_false]
    · simp [List.replicate, Attempt.step, resume, hpeek, hpush, hretry]

theorem drainDisk_unreachable (hpeek : c.buffer.peek codec drainChunk = .ok chunk) (hchunk : chunk ≠ [])
    {err : GridWitnessApiError} (hpush : pushItems py a = .error (.api err))
    (hretry : err.retryable = true) :
    c.drainDisk py codec (a :: answers) = some (c, [⟨chunk, a, []⟩], .ok false) := by
  obtain ⟨item, items, rfl⟩ := List.exists_cons_of_ne_nil hchunk
  rw [drainDisk]
  simp only [hpeek, hpush, hretry, if_true]

end Round

/-- What the rounds of a drain took from the file was pushed for good, and what they leave of it. -/
structure Drained (py : Python) (codec : Codec Line) (before after : Coordinator Line)
    (rounds : List (Round Line)) (drained : Bool) : Prop where
  removed : before.buffer.lines = rounds.flatMap (·.committed) ++ after.buffer.lines
  pushed : ∀ r ∈ rounds, codec.wellFormed r.committed <+: r.chunk
  settled : ∀ r ∈ rounds, r.committed ≠ [] → Settled py r.answer
  finished : drained = true → ∀ l ∈ after.buffer.lines, codec.loads l = .undecodable

variable {c c' : Coordinator Line} {rounds : List (Round Line)} {drained : Bool} {chunk : List Item}
  {a : Exchange}

theorem Drained.nothing (h : ∀ l ∈ c.buffer.lines, codec.loads l = .undecodable) :
    Drained py codec c c [] true where
  removed := rfl
  pushed _ hr := absurd hr List.not_mem_nil
  settled _ hr := absurd hr List.not_mem_nil
  finished _ := h

theorem Drained.unreachable : Drained py codec c c [⟨chunk, a, []⟩] false where
  removed := rfl
  pushed r hr := by
    rw [List.mem_singleton.mp hr]
    exact List.nil_prefix
  settled r hr hcommitted := by
    rw [List.mem_singleton.mp hr] at hcommitted
    exact absurd rfl hcommitted
  finished h := by cases h

/-- A settled round before the others. -/
theorem Drained.round {total : Int} (ha : Settled py a)
    (hchunk : codec.wellFormed (c.buffer.lines.take chunk.length) <+: chunk)
    (h : Drained py codec { c with buffer := c.buffer.commit chunk.length, samplesTotal := total } c'
      rounds drained) :
    Drained py codec c c' (⟨chunk, a, c.buffer.lines.take chunk.length⟩ :: rounds) drained where
  removed := by
    have hrest : c.buffer.lines.drop chunk.length = rounds.flatMap (·.committed) ++ c'.buffer.lines := by
      rw [← DiskBuffer.lines_commit]
      exact h.removed
    rw [List.flatMap_cons, List.append_assoc, ← hrest, List.take_append_drop]
  pushed := List.forall_mem_cons.mpr ⟨hchunk, h.pushed⟩
  settled := List.forall_mem_cons.mpr ⟨fun _ => ha, h.settled⟩
  finished := h.finished

/-- With an exchange for each line of the file, the loop ends: every commit removes a line. It gives up only
where a push asks to be tried again. -/
theorem drainDisk_drained (answers : List Exchange) (hlines : ∀ l ∈ c.buffer.lines, codec.RecordOrTorn l)
    (hhandled : ∀ a ∈ answers, ∀ e, pushItems py a ≠ .error (.other e))
    (henough : c.buffer.lines.length ≤ answers.length) :
    ∃ c' rounds drained, c.drainDisk py codec answers = some (c', rounds, .ok drained) ∧
      Drained py codec c c' rounds drained ∧
      (drained = false → ∃ a ∈ answers, Retries py a) := by
  induction answers generalizing c with
  | nil =>
    have hnone : c.buffer.lines = [] := List.length_eq_zero_iff.mp (Nat.le_zero.mp henough)
    have hpeek : c.buffer.peek codec drainChunk = .ok [] := by
      rw [DiskBuffer.peek, hnone]
      rfl
    have hundecodable : ∀ l ∈ c.buffer.lines, codec.loads l = .undecodable := by
      simp [hnone]
    exact ⟨c, [], true, drainDisk_nothing hpeek, .nothing hundecodable, by simp⟩
  | cons a answers ih =>
    have hpeek : c.buffer.peek codec drainChunk =
        .ok ((codec.wellFormed c.buffer.lines).take drainChunk) :=
      Codec.items_wellFormed (fun l hl => (hlines l hl).item_ne_raised) drainChunk
    have hcommitted := Codec.wellFormed_committed codec c.buffer.lines drainChunk
    generalize hchunk : (codec.wellFormed c.buffer.lines).take drainChunk = chunk at hpeek hcommitted
    by_cases hempty : chunk = []
    · subst hempty
      have hnone : codec.wellFormed c.buffer.lines = [] := by
        simpa [drainChunk] using List.take_eq_nil_iff.mp hchunk
      exact ⟨c, [], true, drainDisk_nothing hpeek, .nothing (Codec.loads_of_wellFormed_nil hlines hnone),
        by simp⟩
    · have hsettled : Settled py a → ∃ c' rounds drained,
          c.drainDisk py codec (a :: answers) = some (c', rounds, .ok drained) ∧
            Drained py codec c c' rounds drained ∧
            (drained = false → ∃ b ∈ a :: answers, Retries py b) := by
        intro ha
        obtain ⟨total, hround, -⟩ := drainDisk_settled answers hpeek hempty ha
        have hpositive : 0 < chunk.length := List.length_pos_of_ne_nil hempty
        obtain ⟨c', rounds, drained, hrun, hdrained, hretried⟩ := @ih
          { c with buffer := c.buffer.commit chunk.length, samplesTotal := total }
          (fun l hl => by
            rw [DiskBuffer.lines_commit] at hl
            exact hlines l (List.mem_of_mem_drop hl))
          (fun b hb => hhandled b (List.mem_cons_of_mem a hb))
          (by
            rw [DiskBuffer.lines_commit, List.length_drop]
            rw [List.length_cons] at henough
            omega)
        exact ⟨c', _, drained, by rw [hround, hrun]; rfl, hdrained.round ha hcommitted, fun hfalse =>
          (hretried hfalse).imp fun b hb => ⟨List.mem_cons_of_mem a hb.1, hb.2⟩⟩
      rcases pushItems_cases py a with ⟨n, hpush, -⟩ | ⟨err, hpush, -⟩ | ⟨e, hpush, -⟩
      · exact hsettled (Or.inl ⟨n, hpush⟩)
      · cases hretry : err.retryable with
        | false => exact hsettled (Or.inr ⟨err, hpush, hretry⟩)
        | true =>
          exact ⟨c, _, false, drainDisk_unreachable hpeek hempty hpush hretry, .unreachable,
            fun _ => ⟨a, List.mem_cons_self, err, hpush, hretry⟩⟩
      · exact absurd hpush (hhandled a List.mem_cons_self e)

/-- Where a flush goes on after `_drain_disk`. -/
def afterDrain (batch : List Captured) : Except PyError Bool → Phase
  | .error e => .ended (some e)
  | .ok true => if batch.isEmpty then .echo else .send
  | .ok false => if batch.isEmpty then .ended none else .append false

/-- Where a flush is after one or two steps, when its peek or its push ends the loop. -/
theorem drainDisk_over {answers : List Exchange} {result : Except PyError Bool} (batch : List Captured)
    (trace : List (Effect Line)) (h : c.drainDisk py codec answers = some (c', rounds, result))
    (hover : ∀ chunk, c.buffer.peek codec drainChunk = .ok chunk → chunk ≠ [] →
      ∀ a ∈ answers.head?, ¬Settled py a) :
    ∃ steps : List Answer,
      let s := steps.foldl (Attempt.step py codec) ⟨c, ⟨batch, .peek⟩, trace⟩
      s.flush = ⟨batch, afterDrain batch result⟩ ∧ s.coordinator.buffer = c'.buffer ∧
        s.coordinator.samplesTotal = c'.samplesTotal := by
  cases hpeek : c.buffer.peek codec drainChunk with
  | error e =>
    have hended : c.drainDisk py codec answers = some (c, [], .error e) := by
      cases answers <;> simp only [drainDisk, hpeek]
    cases h.symm.trans hended
    exact ⟨[⟨.timeoutError, 0⟩], by simp [Attempt.step, resume, hpeek, afterDrain]⟩
  | ok chunk =>
    by_cases hempty : chunk = []
    · subst hempty
      cases h.symm.trans (drainDisk_nothing hpeek)
      exact ⟨[⟨.timeoutError, 0⟩], by simp [Attempt.step, resume, hpeek, afterDrain]⟩
    · obtain ⟨item, items, rfl⟩ := List.exists_cons_of_ne_nil hempty
      cases answers with
      | nil => simp [drainDisk, hpeek] at h
      | cons a answers =>
        have ha := hover _ hpeek hempty a rfl
        rw [drainDisk] at h
        refine ⟨List.replicate 2 ⟨a, 0⟩, ?_⟩
        rcases pushItems_cases py a with ⟨n, hpush, -⟩ | ⟨err, hpush, -⟩ | ⟨e, hpush, -⟩
        · exact absurd (Or.inl ⟨n, hpush⟩) ha
        · have hretry : err.retryable = true := by
            simpa using fun hretry => ha (Or.inr ⟨err, hpush, hretry⟩)
          simp only [hpeek, hpush, hretry, if_true] at h
          cases h
          cases batch <;> simp [List.replicate, Attempt.step, resume, hpeek, hpush, hretry, afterDrain]
        · simp only [hpeek, hpush] at h
          cases h
          simp [List.replicate, Attempt.step, resume, hpeek, hpush, afterDrain]

/-- The steps of a flush that nothing comes between are `_drain_disk`. -/
theorem drainDisk_steps {answers : List Exchange} {result : Except PyError Bool}
    (h : c.drainDisk py codec answers = some (c', rounds, result)) (batch : List Captured)
    (trace : List (Effect Line)) :
    ∃ steps : List Answer,
      let s := steps.foldl (Attempt.step py codec) ⟨c, ⟨batch, .peek⟩, trace⟩
      s.flush = ⟨batch, afterDrain batch result⟩ ∧ s.coordinator.buffer = c'.buffer ∧
        s.coordinator.samplesTotal = c'.samplesTotal := by
  induction answers generalizing c rounds trace with
  | nil => exact drainDisk_over batch trace h fun _ _ _ a ha => by cases ha
  | cons a answers ih =>
    by_cases hround : ∃ chunk, c.buffer.peek codec drainChunk = .ok chunk ∧ chunk ≠ [] ∧ Settled py a
    · obtain ⟨chunk, hpeek, hchunk, ha⟩ := hround
      obtain ⟨total, hrun, hsteps⟩ := drainDisk_settled answers hpeek hchunk ha
      obtain ⟨⟨c₁, rounds₁, result₁⟩, hrest, heq⟩ := Option.map_eq_some_iff.mp (hrun.symm.trans h)
      cases heq
      obtain ⟨steps, hlater⟩ := ih hrest _
      exact ⟨List.replicate 3 ⟨a, 0⟩ ++ steps, by rwa [List.foldl_append, hsteps batch trace]⟩
    · refine drainDisk_over batch trace h fun chunk hpeek hchunk b hb ha => hround ?_
      cases hb
      exact ⟨chunk, hpeek, hchunk, ha⟩

/-- A backlog whose first line was torn. -/
def tornBacklog : Coordinator (Option Json) where
  pending := []
  buffer := DiskBuffer.tornFile
  online := false
  samplesTotal := 0

end Coordinator

end GridWitness.Client
