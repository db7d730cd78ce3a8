import GridWitness.Client.BufferLaws
import GridWitness.Client.ExchangeLaws

namespace GridWitness.Client

universe u

variable {Line : Type u} (py : Python) (codec : Codec Line)

/-- The push is over for its rows: it succeeded, or trying again is no use. -/
def Exchange.Settles (ex : Exchange) : Prop := ex.Handled py ∧ ¬ ex.fails ∨ ex.refuses

/-- Everything one step of a flush can do, as far as rows go. -/
inductive Move (c : Coordinator Line) (f : Flush) (a : Answer) :
    Coordinator Line → Flush → Option (Effect Line) → Prop
  | peekRaised (e : PyError) : f.phase = .peek → c.buffer.peek codec drainChunk = .error e →
      Move c f a c ⟨f.batch, .ended (some e)⟩ none
  | peekNothing : f.phase = .peek → c.buffer.peek codec drainChunk = .ok [] → f.batch = [] →
      Move c f a c ⟨f.batch, .echo⟩ none
  | peekEmpty : f.phase = .peek → c.buffer.peek codec drainChunk = .ok [] → f.batch ≠ [] →
      Move c f a c ⟨f.batch, .send⟩ none
  | peekChunk (chunk : List Item) : f.phase = .peek → c.buffer.peek codec drainChunk = .ok chunk →
      chunk ≠ [] → Move c f a c ⟨f.batch, .push chunk⟩ none
  | pushSettled (chunk : List Item) (total : Int) : f.phase = .push chunk → a.exchange.Settles py →
      Move c f a { c with samplesTotal := total } ⟨f.batch, .commit chunk a.exchange⟩
        (some (.drained chunk a.exchange))
  | pushFailed (chunk : List Item) : f.phase = .push chunk → a.exchange.Handled py →
      a.exchange.fails → f.batch ≠ [] →
      Move c f a c ⟨f.batch, .append false⟩ (some (.drained chunk a.exchange))
  | pushOffline (chunk : List Item) : f.phase = .push chunk → a.exchange.Handled py →
      a.exchange.fails → f.batch = [] →
      Move c f a { c with online := false } ⟨f.batch, .ended none⟩
        (some (.drained chunk a.exchange))
  | pushRaised (chunk : List Item) (e : PyError) : f.phase = .push chunk →
      ¬ a.exchange.Handled py →
      Move c f a c ⟨f.batch, .ended (some e)⟩ (some (.drained chunk a.exchange))
  | commit (chunk : List Item) (answer : Exchange) : f.phase = .commit chunk answer →
      Move c f a { c with buffer := c.buffer.commit chunk.length } ⟨f.batch, .peek⟩
        (some (.committed (c.buffer.lines.take chunk.length) answer))
  | sendSettled (total : Int) (online : Bool) : f.phase = .send → a.exchange.Settles py →
      Move c f a { c with samplesTotal := total, online := online } ⟨f.batch, .echo⟩
        (some (.sent f.batch a.exchange))
  | sendFailed : f.phase = .send → a.exchange.Handled py → a.exchange.fails →
      Move c f a c ⟨f.batch, .append true⟩ (some (.sent f.batch a.exchange))
  | sendRaised (e : PyError) : f.phase = .send → ¬ a.exchange.Handled py →
      Move c f a c ⟨f.batch, .ended (some e)⟩ (some (.sent f.batch a.exchange))
  | append (drained : Bool) : f.phase = .append drained →
      Move c f a { c with buffer := c.buffer.append codec f.batch (py.iso a.now) }
        ⟨f.batch, .prune drained⟩ (some (.appended f.batch))
  | pruneRaised (drained : Bool) (e : PyError) : f.phase = .prune drained →
      c.buffer.prune codec py a.now = .error e → Move c f a c ⟨f.batch, .ended (some e)⟩ none
  | pruned (drained : Bool) (buffer : DiskBuffer Line) (dropped : Nat) (phase : Phase) :
      f.phase = .prune drained →
      c.buffer.prune codec py a.now = .ok (buffer, dropped) →
      phase = (if drained then .echo else .ended none) →
      Move c f a { c with buffer := buffer, online := false } ⟨f.batch, phase⟩
        (some (.pruned dropped))
  | echo : f.phase = .echo → Move c f a c ⟨f.batch, .ended none⟩ none
  | ended (raised : Option PyError) : f.phase = .ended raised → Move c f a c f none

theorem resume_move (c : Coordinator Line) (f : Flush) (a : Answer) :
    Move py codec c f a (c.resume py codec f a).1 (c.resume py codec f a).2.1
      (c.resume py codec f a).2.2 := by
  obtain ⟨batch, phase⟩ := f
  cases phase with
  | peek =>
    cases hpeek : c.buffer.peek codec drainChunk with
    | error e =>
      simp only [Coordinator.resume, hpeek]
      exact .peekRaised e rfl hpeek
    | ok chunk =>
      cases chunk with
      | nil =>
        cases batch with
        | nil =>
          simp only [Coordinator.resume, hpeek]
          exact .peekNothing rfl hpeek rfl
        | cons r batch =>
          simp only [Coordinator.resume, hpeek]
          exact .peekEmpty rfl hpeek (List.cons_ne_nil r batch)
      | cons i chunk =>
        simp only [Coordinator.resume, hpeek]
        exact .peekChunk _ rfl hpeek (List.cons_ne_nil i chunk)
  | push chunk =>
    rcases pushItems_cases py a.exchange with
      ⟨n, hpush, hhandled, hfails⟩ | ⟨err, hpush, hhandled, hfails, hrefuses⟩ | ⟨e, hpush, hhandled⟩
    · simp only [Coordinator.resume, hpush]
      exact .pushSettled chunk _ rfl (Or.inl ⟨hhandled, hfails⟩)
    · cases hretry : err.retryable with
      | false =>
        simp only [Coordinator.resume, hpush, hretry]
        exact .pushSettled chunk c.samplesTotal rfl (Or.inr (hrefuses hretry))
      | true =>
        cases batch with
        | nil =>
          simp only [Coordinator.resume, hpush, hretry]
          exact .pushOffline chunk rfl hhandled hfails rfl
        | cons r batch =>
          simp only [Coordinator.resume, hpush, hretry]
          exact .pushFailed chunk rfl hhandled hfails (List.cons_ne_nil r batch)
    · simp only [Coordinator.resume, hpush]
      exact .pushRaised chunk e rfl hhandled
  | commit chunk answer => exact .commit chunk answer rfl
  | send =>
    rcases pushItems_cases py a.exchange with
      ⟨n, hpush, hhandled, hfails⟩ | ⟨err, hpush, hhandled, hfails, hrefuses⟩ | ⟨e, hpush, hhandled⟩
    · simp only [Coordinator.resume, hpush]
      exact .sendSettled _ true rfl (Or.inl ⟨hhandled, hfails⟩)
    · cases hretry : err.retryable with
      | false =>
        simp only [Coordinator.resume, hpush, hretry]
        exact .sendSettled c.samplesTotal c.online rfl (Or.inr (hrefuses hretry))
      | true =>
        simp only [Coordinator.resume, hpush, hretry]
        exact .sendFailed rfl hhandled hfails
    · simp only [Coordinator.resume, hpush]
      exact .sendRaised e rfl hhandled
  | append drained => exact .append drained rfl
  | prune drained =>
    cases hprune : c.buffer.prune codec py a.now with
    | error e =>
      simp only [Coordinator.resume, hprune]
      exact .pruneRaised drained e rfl hprune
    | ok pruned =>
      simp only [Coordinator.resume, hprune]
      exact .pruned drained pruned.1 pruned.2 _ rfl hprune rfl
  | echo => exact .echo rfl
  | ended raised => exact .ended raised rfl

end GridWitness.Client
