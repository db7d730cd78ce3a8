import GridWitness.Client.Capture
import GridWitness.Delivery.OnceLaws

namespace GridWitness.Delivery

open Client Server Library

universe u

variable {Line : Type u}

/-- The row of an item, where its kind is one of the two. -/
def capturedOf : Item → Option Captured
  | (.str kind, row) =>
    if kind = Kind.electrical.value then some (.electrical, row)
    else if kind = Kind.weather.value then some (.weather, row)
    else none
  | _ => none

/-- The rows that a request of some items carries. -/
def requested (items : List Item) : List Captured := items.filterMap capturedOf

theorem capturedOf_eq_some {i : Item} {r : Captured} : capturedOf i = some r ↔ i = r.item := by
  obtain ⟨kind, row⟩ := i
  obtain ⟨kind', row'⟩ := r
  cases kind with
  | str kind =>
    by_cases he : kind = Kind.electrical.value
    · subst he
      cases kind' <;> simp [capturedOf, Captured.item, Kind.value]
    · by_cases hw : kind = Kind.weather.value
      · subst hw
        cases kind' <;> simp [capturedOf, Captured.item, Kind.value]
      · cases kind' <;> simp [capturedOf, Captured.item, he, hw]
  | _ => simp [capturedOf, Captured.item]

theorem requested_items (rs : List Captured) : requested (rs.map Captured.item) = rs := by
  rw [requested, List.filterMap_map]
  have hsome : capturedOf ∘ Captured.item = some := by
    funext r
    exact capturedOf_eq_some.mpr rfl
  rw [hsome, List.filterMap_some]

/-- Items of any other kind go into no list of the request. -/
theorem rowsOf_requested (kind : Kind) (items : List Item) :
    rowsOf kind ((requested items).map Captured.item) = rowsOf kind items := by
  rw [rowsOf, requested, rowsOf, List.map_filterMap, List.filterMap_filterMap]
  refine List.filterMap_congr fun i _ => ?_
  cases hi : capturedOf i with
  | some r =>
    obtain rfl := capturedOf_eq_some.mp hi
    rfl
  | none =>
    obtain ⟨kind', row⟩ := i
    cases kind' with
    | str kind' =>
      have hkind : kind' ≠ kind.value := by
        rintro rfl
        have hsome : capturedOf (.str kind.value, row) = some (kind, row) :=
          capturedOf_eq_some.mpr rfl
        rw [hi] at hsome
        cases hsome
      simp [hkind]
    | _ => rfl

theorem post_requested (k : Link Line) (s : App) (items : List Item) (fate : Fate) :
    k.post s ((requested items).map Captured.item) fate = k.post s items fate := by
  have hrequest : k.request ((requested items).map Captured.item) = k.request items := by
    rw [Link.request, rowsOf_requested, rowsOf_requested]
    rfl
  cases fate with
  | unprocessed ending => rfl
  | processed monotonic lost => rw [Link.post, hrequest, Link.post]

/-- What ends the exchange in place of the server's own answer. -/
def Fate.instead : Fate → Option Exchange
  | .unprocessed ending => some ending
  | .processed _ lost => lost

/-- The client is done with a request the server turns down. -/
def Fate.Settles (py : Python) (fate : Fate) : Prop := ∀ ex ∈ fate.instead, ex.Settles py

/-- The client will try a request again that the server turns down. -/
def Fate.Retried (py : Python) (fate : Fate) : Prop :=
  ∃ ex ∈ fate.instead, ex.Handled py ∧ ¬ ex.Settles py

/-- The number of lines a flush is about to remove. -/
def doomed (f : Flush) : Nat :=
  match f.phase with
  | .commit chunk _ => chunk.length
  | _ => 0

namespace Session

variable (k : Link Line) (x : Session Line)

def doomed : Nat := x.world.flushes.foldr (fun f n => Delivery.doomed f + n) 0

/-- The client holds a row: it is pending, a flush carries it, or it is in the file and no flush is
about to remove it. -/
def Holds (r : Captured) : Prop :=
  r ∈ x.world.coordinator.pending ∨ (∃ f ∈ x.world.flushes, r ∈ carried f) ∨
    Buffered k.codec (x.world.coordinator.buffer.lines.drop x.doomed) r

/-- The client has a row, or keeps it, whatever becomes of the request of a flush that is turned
down. -/
def Covers (i : Nat) (f : Flush) (fate : Fate) (r : Captured) : Prop :=
  r ∈ x.world.coordinator.pending ∨
    (∃ j g, x.world.flushes[j]? = some g ∧ j ≠ i ∧ r ∈ carried g) ∨
    match f.phase with
    -- a chunk leaves the file when it is done with, and the batch behind it is not part of it
    | .push chunk =>
      (fate.Settles k.py ∨ fate.Retried k.py) ∧ r ∈ f.batch ∨
        Buffered k.codec (x.world.coordinator.buffer.lines.drop (x.doomed + chunk.length)) r ∨
        ¬ fate.Settles k.py ∧ Buffered k.codec (x.world.coordinator.buffer.lines.drop x.doomed) r
    | _ =>
      fate.Retried k.py ∧ r ∈ f.batch ∨
        Buffered k.codec (x.world.coordinator.buffer.lines.drop x.doomed) r

end Session

section Claim

variable (k : Link Line) (node : Node)

def Staged (s : App) (r : Captured) : Prop :=
  ∃ y, filed k.pydantic node r = some y ∧ s.tree.Has y.1 (y.1.csvLine y.2)

variable (x : Session Line)

/-- Where a request carries an invalid row, each row of it that is valid and consented is staged or
held once the client has dealt with it. -/
def SparesNeighbours : Event → Prop
  | .resume i fate now => ∀ f items node, x.world.flushes[i]? = some f → posted f = some items →
    Known k node x.app → (requested items).all (valid k.pydantic) = false →
    ∀ r ∈ requested items, (filed k.pydantic node r).isSome →
      Staged k node (x.step k (.resume i fate now)).app r ∨
        (x.step k (.resume i fate now)).Holds k r
  | _ => True

/-- Where a request carries an invalid row, each row of it that is valid and consented is staged
before, or the client has it without the request. -/
def CoversNeighbours : Event → Prop
  | .resume i fate _ => ∀ f items node, x.world.flushes[i]? = some f → posted f = some items →
    Known k node x.app → (requested items).all (valid k.pydantic) = false →
    ∀ r ∈ requested items, (filed k.pydantic node r).isSome →
      Staged k node x.app r ∨ x.Covers k i f fate r
  | _ => True

end Claim

section Step

variable {k : Link Line} {node : Node} {x : Session Line} {i : Nat} {f : Flush} {items : List Item}
  {fate : Fate} {now : Time}

/-- What a flush is left with when its request has ended. -/
theorem resume_posted {py : Python} {codec : Codec Line} {c : Coordinator Line} {a : Answer}
    {out : Coordinator Line × Flush × Option (Effect Line)} (hout : c.resume py codec f a = out)
    (hposted : posted f = some items) :
    out.1.pending = c.pending ∧ out.1.buffer = c.buffer ∧
      (a.exchange.Settles py ∧
          ((∃ chunk, f.phase = .push chunk ∧ out.2.1 = ⟨f.batch, .commit chunk a.exchange⟩) ∨
            f.phase = .send ∧ out.2.1 = ⟨f.batch, .echo⟩) ∨
        (a.exchange.Handled py ∧ ¬ a.exchange.Settles py) ∧ doomed out.2.1 = 0 ∧
          carried out.2.1 = f.batch ∨
        ¬ a.exchange.Handled py ∧ doomed out.2.1 = 0 ∧ carried out.2.1 = []) := by
  obtain ⟨batch, phase⟩ := f
  have hretried : ∀ err, pushItems py a.exchange = .error (.api err) → err.retryable = true →
      a.exchange.fails → ¬ a.exchange.Settles py := fun err hpush hretry hfails hsettles =>
    hsettles.elim (fun hok => hok.2 hfails) (not_refuses_of_retryable hpush hretry)
  cases phase with
  | push chunk =>
    rcases pushItems_cases py a.exchange with
      ⟨n, hpush, hhandled, hfails⟩ | ⟨err, hpush, hhandled, hfails, hrefuses⟩ | ⟨e, hpush, hhandled⟩
    · simp only [Coordinator.resume, hpush] at hout
      subst hout
      exact ⟨rfl, rfl, Or.inl ⟨Or.inl ⟨hhandled, hfails⟩, Or.inl ⟨chunk, rfl, rfl⟩⟩⟩
    · cases hretry : err.retryable with
      | false =>
        simp only [Coordinator.resume, hpush, hretry] at hout
        subst hout
        exact ⟨rfl, rfl, Or.inl ⟨Or.inr (hrefuses hretry), Or.inl ⟨chunk, rfl, rfl⟩⟩⟩
      | true =>
        have hkeeps := And.intro hhandled (hretried err hpush hretry hfails)
        cases batch with
        | nil =>
          simp only [Coordinator.resume, hpush, hretry] at hout
          subst hout
          exact ⟨rfl, rfl, Or.inr (Or.inl ⟨hkeeps, rfl, rfl⟩)⟩
        | cons r batch =>
          simp only [Coordinator.resume, hpush, hretry] at hout
          subst hout
          exact ⟨rfl, rfl, Or.inr (Or.inl ⟨hkeeps, rfl, rfl⟩)⟩
    · simp only [Coordinator.resume, hpush] at hout
      subst hout
      exact ⟨rfl, rfl, Or.inr (Or.inr ⟨hhandled, rfl, rfl⟩)⟩
  | send =>
    rcases pushItems_cases py a.exchange with
      ⟨n, hpush, hhandled, hfails⟩ | ⟨err, hpush, hhandled, hfails, hrefuses⟩ | ⟨e, hpush, hhandled⟩
    · simp only [Coordinator.resume, hpush] at hout
      subst hout
      exact ⟨rfl, rfl, Or.inl ⟨Or.inl ⟨hhandled, hfails⟩, Or.inr ⟨rfl, rfl⟩⟩⟩
    · cases hretry : err.retryable with
      | false =>
        simp only [Coordinator.resume, hpush, hretry] at hout
        subst hout
        exact ⟨rfl, rfl, Or.inl ⟨Or.inr (hrefuses hretry), Or.inr ⟨rfl, rfl⟩⟩⟩
      | true =>
        simp only [Coordinator.resume, hpush, hretry] at hout
        subst hout
        exact ⟨rfl, rfl, Or.inr (Or.inl ⟨⟨hhandled, hretried err hpush hretry hfails⟩, rfl, rfl⟩)⟩
    · simp only [Coordinator.resume, hpush] at hout
      subst hout
      exact ⟨rfl, rfl, Or.inr (Or.inr ⟨hhandled, rfl, rfl⟩)⟩
  | _ => cases hposted

/-- A request with an invalid row leaves the server as it was, and its exchange settles unless
something else ends it. -/
theorem post_refused {s : App} (hknown : Known k node s)
    (hinvalid : (requested items).all (valid k.pydantic) = false) (fate : Fate) :
    (k.post s items fate).1 = s ∧
      ((k.post s items fate).2.2.Settles k.py ↔ fate.Settles k.py) ∧
      ((k.post s items fate).2.2.Handled k.py ∧ ¬ (k.post s items fate).2.2.Settles k.py ↔
        fate.Retried k.py) := by
  cases fate with
  | unprocessed ending =>
    rw [show k.post s items (.unprocessed ending) = (s, [], ending) from rfl]
    simp [Fate.Settles, Fate.Retried, Fate.instead]
  | processed monotonic lost =>
    rw [← post_requested, post_invalid hknown hinvalid]
    cases lost with
    | none =>
      have hrefuses : (validationExc k.pydantic
          (k.request ((requested items).map Captured.item))).Settles k.py :=
        Or.inr ⟨by decide, by decide, by decide⟩
      simp [Fate.Settles, Fate.Retried, Fate.instead, hrefuses]
    | some ending => simp [Fate.Settles, Fate.Retried, Fate.instead]

theorem exists_mem_set {fs : List Flush} {f' : Flush} {P : Flush → Prop} (hf : fs[i]? = some f) :
    (∃ g ∈ fs.set i f', P g) ↔ (∃ j g, fs[j]? = some g ∧ j ≠ i ∧ P g) ∨ P f' := by
  have hi := (List.getElem?_eq_some_iff.mp hf).1
  constructor
  · rintro ⟨g, hg, hP⟩
    obtain ⟨j, hj⟩ := List.mem_iff_getElem?.mp hg
    by_cases hji : j = i
    · subst hji
      rw [List.getElem?_set_self hi] at hj
      exact Or.inr (Option.some.inj hj ▸ hP)
    · rw [List.getElem?_set_ne (Ne.symm hji)] at hj
      exact Or.inl ⟨j, g, hj, hji, hP⟩
  · rintro (⟨j, g, hj, hji, hP⟩ | hP)
    · refine ⟨g, List.mem_iff_getElem?.mpr ⟨j, ?_⟩, hP⟩
      rw [List.getElem?_set_ne (Ne.symm hji), hj]
    · exact ⟨f', List.mem_set hi f', hP⟩

theorem doomed_set {fs : List Flush} {f' : Flush} (hf : fs[i]? = some f) (hzero : doomed f = 0) :
    (fs.set i f').foldr (fun f n => doomed f + n) 0 =
      fs.foldr (fun f n => doomed f + n) 0 + doomed f' := by
  induction fs generalizing i with
  | nil => cases hf
  | cons g fs ih =>
    cases i with
    | zero =>
      obtain rfl : g = f := Option.some.inj hf
      simp only [List.set_cons_zero, List.foldr_cons, hzero]
      omega
    | succ i =>
      simp only [List.set_cons_succ, List.foldr_cons, ih hf]
      omega

/-- What the client holds after a step of a flush that waits for a post. -/
theorem resume_holds (hf : x.world.flushes[i]? = some f) (hposted : posted f = some items)
    {out : Coordinator Line × Flush × Option (Effect Line)} (hout : x.world.coordinator.resume k.py
      k.codec f ⟨(k.post x.app items fate).2.2, now⟩ = out) {r : Captured} :
    (x.step k (.resume i fate now)).Holds k r ↔
      r ∈ out.1.pending ∨
        ((∃ j g, x.world.flushes[j]? = some g ∧ j ≠ i ∧ r ∈ carried g) ∨ r ∈ carried out.2.1) ∨
        Buffered k.codec (out.1.buffer.lines.drop (x.doomed + doomed out.2.1)) r := by
  have hzero : doomed f = 0 := by
    obtain ⟨batch, phase⟩ := f
    cases phase <;> first | rfl | cases hposted
  have hworld : (x.step k (.resume i fate now)).world =
      ⟨out.1, x.world.flushes.set i out.2.1, out.2.2.toList ++ x.world.trace, x.world.captured⟩ := by
    simp only [Session.step, hf, Option.bind_some, hposted]
    rw [World.step_resume hf, hout]
  rw [Session.Holds, Session.doomed, hworld, exists_mem_set hf, doomed_set hf hzero, ← Session.doomed]

theorem buffered_of_drop {codec : Codec Line} {lines : List Line} {r : Captured} {m n : Nat}
    (h : Buffered codec (lines.drop (m + n)) r) : Buffered codec (lines.drop m) r := by
  obtain ⟨l, hl, hr⟩ := h
  rw [← List.drop_drop] at hl
  exact ⟨l, List.mem_of_mem_drop hl, hr⟩

theorem spares_iff_covers (k : Link Line) (x : Session Line) (e : Event) :
    SparesNeighbours k x e ↔ CoversNeighbours k x e := by
  cases e with
  | resume i fate now =>
    refine forall₅_congr fun f items node hf hposted => forall₄_congr fun hknown hinvalid r hr =>
      imp_congr_right fun hgood => ?_
    obtain ⟨happ, hsettles, hretried⟩ := post_refused hknown hinvalid fate
    have hstaged : (x.step k (.resume i fate now)).app = x.app := by
      simp only [Session.step, hf, Option.bind_some, hposted]
      exact happ
    rw [hstaged]
    refine or_congr_right ?_
    generalize hout : x.world.coordinator.resume k.py k.codec f
      ⟨(k.post x.app items fate).2.2, now⟩ = out
    rw [resume_holds hf hposted hout]
    obtain ⟨hpending, hbuffer, hcases⟩ := resume_posted hout hposted
    rw [hpending, hbuffer, Session.Covers]
    refine or_congr_right ?_
    rw [or_assoc]
    refine or_congr_right ?_
    have hbehind : ∀ n, Buffered k.codec (x.world.coordinator.buffer.lines.drop (x.doomed + n)) r →
        Buffered k.codec (x.world.coordinator.buffer.lines.drop x.doomed) r :=
      fun n => buffered_of_drop
    obtain ⟨batch, phase⟩ := f
    rcases hcases with ⟨hsettled, hafter⟩ | ⟨hkept, hzero, hcarried⟩ | ⟨hraised, hzero, hcarried⟩
    · -- the client is done with the request
      have hdone : fate.Settles k.py := hsettles.mp hsettled
      have hnever : ¬ fate.Retried k.py := fun h => (hretried.mpr h).2 hsettled
      rcases hafter with ⟨chunk, hphase, hafter⟩ | ⟨hphase, hafter⟩
      · cases hphase
        simp [hafter, carried, doomed, hdone]
      · cases hphase
        simp [hafter, carried, doomed, hnever]
    · -- it will try again
      have hagain : fate.Retried k.py := hretried.mp hkept
      have hopen : ¬ fate.Settles k.py := fun h => hkept.2 (hsettles.mpr h)
      rw [hzero, hcarried]
      cases phase with
      | push chunk =>
        simp [hagain, hopen, or_iff_right_of_imp (hbehind chunk.length)]
      | send => simp [hagain]
      | _ => cases hposted
    · -- an exception leaves the flush
      have hopen : ¬ fate.Settles k.py := fun h => hraised (Attempt.settles_handled (hsettles.mpr h))
      have hnever : ¬ fate.Retried k.py := fun h => hraised (hretried.mpr h).1
      rw [hzero, hcarried]
      cases phase with
      | push chunk =>
        simp [hnever, hopen, or_iff_right_of_imp (hbehind chunk.length)]
      | send => simp [hnever]
      | _ => cases hposted
  | _ => rfl

end Step

section Serial

variable (k : Link Line) (x : Session Line)

/-- A flush starts, and a client stops, only when every flush is over. -/
def Serial : Event → Prop
  | .timer => ∀ f ∈ x.world.flushes, f.Over
  | .stop _ _ => ∀ f ∈ x.world.flushes, f.Over
  | _ => True

/-- The answer to a request with an invalid row never arrives, and the client tries again. -/
def Retries : Event → Prop
  | .resume i fate _ => ∀ f items, x.world.flushes[i]? = some f → posted f = some items →
    (requested items).all (valid k.pydantic) = false → fate.Retried k.py
  | _ => True

/-- The chunk a flush has read is still in the file. -/
def Loaded (codec : Codec Line) (lines : List Line) (f : Flush) : Prop :=
  ∀ chunk, f.held = some chunk → ∀ item ∈ chunk, ∃ l ∈ lines, codec.item l = .value item

theorem loaded_of_held {codec : Codec Line} {lines : List Line} {f : Flush} (h : f.held = none) :
    Loaded codec lines f := by
  intro chunk hchunk
  rw [h] at hchunk
  cases hchunk

theorem move_loaded {py : Python} {codec : Codec Line} {c c' : Coordinator Line} {f f' : Flush}
    {a : Answer} {effect : Option (Effect Line)} (hmove : Move py codec c f a c' f' effect)
    (h : Loaded codec c.buffer.lines f) : Loaded codec c'.buffer.lines f' := by
  cases hmove with
  | peekChunk chunk hphase hpeek hchunk =>
    rintro held ⟨⟩ item hitem
    exact Codec.items_mem hpeek hitem
  | pushSettled chunk total hphase hsettles =>
    rintro held ⟨⟩
    exact h chunk (by simp [Flush.held, hphase])
  | pruned drained buffer dropped phase hphase hprune hphase' =>
    cases drained <;> subst hphase' <;> exact loaded_of_held rfl
  | ended raised hphase => exact h
  | _ => exact loaded_of_held rfl

/-- At most one flush is in progress, and its chunk is in the file. -/
structure Orderly (codec : Codec Line) (x : World Line) : Prop where
  single : x.Single
  loaded : ∀ f ∈ x.flushes, Loaded codec x.coordinator.buffer.lines f

variable {k x}

theorem world_orderly (py : Python) {codec : Codec Line} {x : World Line} (h : Orderly codec x)
    (e : Client.Event) (hserial : x.Serial e) : Orderly codec (x.step py codec e) := by
  refine ⟨World.step_single h.single e hserial, ?_⟩
  cases e with
  | capture rows => exact h.loaded
  | timer =>
    intro f hf
    rcases List.mem_append.mp hf with hf | hf
    · exact h.loaded f hf
    · cases List.mem_singleton.mp hf
      exact loaded_of_held rfl
  | resume i a =>
    cases hf : x.flushes[i]? with
    | none =>
      simp only [World.step, hf]
      exact h.loaded
    | some f =>
      rw [World.step_resume hf]
      have hmove := resume_move py codec x.coordinator f a
      generalize x.coordinator.resume py codec f a = after at hmove
      obtain ⟨c', f', effect⟩ := after
      intro g hg
      obtain ⟨j, hj⟩ := List.mem_iff_getElem?.mp hg
      by_cases hji : j = i
      · subst hji
        rw [List.getElem?_set_self (List.getElem?_eq_some_iff.mp hf).1] at hj
        cases hj
        exact move_loaded hmove (h.loaded f (List.mem_of_getElem? hf))
      · rw [List.getElem?_set_ne (Ne.symm hji)] at hj
        rcases h.single i j f g hf hj hji with ⟨raised, hphase⟩ | hover
        · -- a flush that is over leaves the file alone
          cases hmove with
          | ended => exact h.loaded g (List.mem_of_getElem? hj)
          | _ => simp_all
        · exact loaded_of_held (Flush.held_of_over hover)

theorem step_orderly {e : Event} (h : Orderly k.codec x.world) (hserial : Serial x e) :
    Orderly k.codec (x.step k e).world := by
  cases e with
  | capture rows => exact world_orderly k.py h (.capture rows) trivial
  | timer => exact world_orderly k.py h .timer hserial
  | stop now later =>
    exact ⟨h.single, fun f hf => loaded_of_held (Flush.held_of_over (hserial f hf))⟩
  | resume i fate now =>
    rw [Session.step]
    split
    · exact world_orderly k.py h (.resume i ⟨.clientError "", now⟩) trivial
    · exact world_orderly k.py h (.resume i ⟨_, now⟩) trivial

theorem doomed_of_over {f : Flush} (h : f.Over) : doomed f = 0 := by
  obtain ⟨raised, hphase⟩ := h
  rw [doomed, hphase]

theorem doomed_eq_zero {fs : List Flush} (h : ∀ f ∈ fs, doomed f = 0) :
    fs.foldr (fun f n => doomed f + n) 0 = 0 := by
  induction fs with
  | nil => rfl
  | cons f fs ih =>
    rw [List.foldr_cons, h f List.mem_cons_self, Nat.zero_add]
    exact ih fun g hg => h g (List.mem_cons_of_mem _ hg)

theorem Orderly.doomed {i : Nat} {f : Flush} (h : Orderly k.codec x.world)
    (hf : x.world.flushes[i]? = some f) (hzero : Delivery.doomed f = 0) (hactive : ¬ f.Over) :
    x.doomed = 0 := by
  refine doomed_eq_zero fun g hg => ?_
  obtain ⟨j, hj⟩ := List.mem_iff_getElem?.mp hg
  by_cases hji : j = i
  · subst hji
    rw [hf] at hj
    exact Option.some.inj hj ▸ hzero
  · exact doomed_of_over ((h.single i j f g hf hj hji).resolve_left hactive)

theorem covers_of_retries {e : Event} (h : Orderly k.codec x.world) (hretries : Retries k x e) :
    CoversNeighbours k x e := by
  cases e with
  | resume i fate now =>
    intro f items node hf hposted hknown hinvalid r hr hgood
    have hretried := hretries f items hf hposted hinvalid
    refine Or.inr (Or.inr (Or.inr ?_))
    obtain ⟨batch, phase⟩ := f
    cases phase with
    | push chunk =>
      obtain rfl : chunk = items := Option.some.inj hposted
      have hnone : x.doomed = 0 := h.doomed hf rfl (by rintro ⟨raised, ⟨⟩⟩)
      have hopen : ¬ fate.Settles k.py := fun hsettles => by
        obtain ⟨ex, hex, -, hnot⟩ := hretried
        exact hnot (hsettles ex hex)
      obtain ⟨item, hitem, hrow⟩ := List.mem_filterMap.mp hr
      obtain rfl := capturedOf_eq_some.mp hrow
      refine Or.inr (Or.inr ⟨hopen, ?_⟩)
      rw [hnone, List.drop_zero]
      exact h.loaded _ (List.mem_of_getElem? hf) chunk rfl _ hitem
    | send =>
      obtain rfl : batch.map Captured.item = items := Option.some.inj hposted
      rw [requested_items] at hr
      exact Or.inl ⟨hretried, hr⟩
    | _ => cases hposted
  | _ => trivial

/-- Where flushes do not overlap it is enough that no refusal reaches the client. -/
theorem retried_spared {c : Coordinator Line} {buffered : List Captured} {s : App}
    {events : List Event}
    (h : Trace.Along (Session.step k) (fun x e => Serial x e ∧ Retries k x e) (.start c buffered s)
      events) :
    Trace.Along (Session.step k) (SparesNeighbours k) (.start c buffered s) events :=
  h.imp (I := fun x : Session Line => Orderly k.codec x.world)
    (fun _ _ hx he => step_orderly hx he.1)
    (fun x e hx he => (spares_iff_covers k x e).mpr (covers_of_retries hx he.2)) ⟨nofun, nofun⟩

end Serial

/-- What happens at a node: a state of Home Assistant, the timer, or a step of a flush. -/
inductive HomeEvent
  | state (offset : Time) (new : Option State)
  | timer
  | resume (i : Nat) (fate : Fate) (now : Time)

def HomeEvent.event (py : Python) (sensors : Sensors) : HomeEvent → Event
  | .state offset new => .capture (onStateEvent py sensors offset new)
  | .timer => .timer
  | .resume i fate now => .resume i fate now

theorem isSome_bind_iff {α β : Type} {o : Option α} {g : α → Option β} {p : Prop}
    (h : ∀ a, (g a).isSome = true ↔ p) : (o.bind g).isSome = true ↔ o.isSome = true ∧ p := by
  cases o with
  | none => simp
  | some a => simp [h a]

theorem number_reading (pyd : Pydantic) {fields : List (String × Json)} {channel : String}
    (value : PyFloat) (c : Channel) (hfields : fields.lookup c.name = none) :
    number pyd (fields ++ [(channel, .float value)]) c =
      some (if c.name = channel then some value else none) := by
  have hlookup : (fields ++ [(channel, Json.float value)]).lookup c.name =
      if c.name = channel then some (Json.float value) else none := by
    rw [List.lookup_append, hfields]
    by_cases h : c.name = channel
    · simp [h]
    · simp [List.lookup_cons, h, beq_eq_false_iff_ne.mpr h]
  rw [number, hlookup]
  split <;> simp_all

/-- A reading is invalid when its phase is none of the four, or it is a frequency out of band. -/
theorem electricalReading_valid (pyd : Pydantic) (ts phase channel : String) (value : PyFloat) :
    valid pyd (electricalReading ts phase channel value) = true ↔
      phase ∈ ["L1", "L2", "L3", "1p"] ∧
        (channel = "frequency_hz" → value.between 40 70 = true) := by
  let fields := [("ts_utc", Json.str ts), ("ts_source", .str "ha_receive"), ("phase", .str phase)]
  have hnumber : ∀ c, number pyd (fields ++ [(channel, .float value)]) c =
      some (if c.name = channel then some value else none) := fun c =>
    number_reading pyd value c (by cases c <;> rfl)
  have htext : text (fields ++ [(channel, .float value)]) "ts_utc" = some ts := rfl
  have hsource : literal (fields ++ [(channel, .float value)]) [.device, .haReceive, .gps]
      TsSource.value .haReceive "ts_source" = some .haReceive := rfl
  have hphase : literal (fields ++ [(channel, .float value)]) [.l1, .l2, .l3, .single]
      Server.Phase.value .single "phase" =
        [Server.Phase.l1, .l2, .l3, .single].find? (·.value = phase) := rfl
  simp only [valid, electricalReading, electricalRow]
  rw [show [("ts_utc", Json.str ts), ("ts_source", .str "ha_receive"), ("phase", .str phase),
     (channel, .float value)] = fields ++ [(channel, .float value)] from rfl, electricalFields, htext,
     hsource, hphase]
  simp only [hnumber, Option.bind_eq_bind, Option.bind_some]
  have hsane : saneFreq (if Channel.frequencyHz.name = channel then some value else none) = true ↔
      (channel = "frequency_hz" → value.between 40 70 = true) := by
    by_cases h : channel = "frequency_hz"
    · subst h
      simp [saneFreq, Channel.name]
    · simp [saneFreq, Channel.name, h, Ne.symm h]
  have hknown : ([Server.Phase.l1, .l2, .l3, .single].find? (·.value = phase)).isSome = true ↔
      phase ∈ ["L1", "L2", "L3", "1p"] := by
    rw [List.find?_isSome]
    simp only [List.mem_cons, List.not_mem_nil, or_false, decide_eq_true_eq, or_and_right, exists_or,
      exists_eq_left, @eq_comm _ _ phase]
    rfl
  refine (isSome_bind_iff (p := saneFreq _ = true) fun a => ?_).trans (and_congr hknown hsane)
  split <;> simp_all

theorem weatherReading_valid (pyd : Pydantic) (ts channel : String) (value : PyFloat) :
    valid pyd (weatherReading ts channel value) = true := by
  let fields := [("time", Json.str ts), ("ts_source", .str "ha_receive")]
  have hnumber : ∀ c, number pyd (fields ++ [(channel, .float value)]) c =
      some (if c.name = channel then some value else none) := fun c =>
    number_reading pyd value c (by cases c <;> rfl)
  have htext : text (fields ++ [(channel, .float value)]) "time" = some ts := rfl
  have hsource : literal (fields ++ [(channel, .float value)])
      [⟨.device, by decide⟩, ⟨.haReceive, by decide⟩]
      (fun source : {source : TsSource // source ≠ .gps} => source.1.value)
      ⟨.haReceive, by decide⟩ "ts_source" = some ⟨.haReceive, by decide⟩ := rfl
  simp only [valid, weatherReading, weatherRow]
  rw [show [("time", Json.str ts), ("ts_source", .str "ha_receive"), (channel, .float value)] =
    fields ++ [(channel, .float value)] from rfl, weatherFields, htext, hsource]
  simp only [hnumber, Option.bind_eq_bind, Option.bind_some, Option.isSome_some]

/-- What makes a captured row invalid: the phase its entity is mapped to, or a frequency. -/
theorem onStateEvent_invalid {pyd : Pydantic} {py : Python} {sensors : Sensors} {offset : Time}
    {new : State} {r : Captured} (hr : r ∈ onStateEvent py sensors offset (some new))
    (hinvalid : valid pyd r = false) :
    ∃ channel phase value, (channel, phase) ∈ sensors.index new.entityId ∧
      sensors.float new.state = some value ∧
      (phase ∉ ["L1", "L2", "L3", "1p"] ∨
        channel = "frequency_hz" ∧ value.between 40 70 = false) := by
  rw [onStateEvent] at hr
  split at hr
  · cases hr
  · cases hvalue : sensors.float new.state with
    | none =>
      rw [hvalue] at hr
      cases hr
    | some value =>
      rw [hvalue] at hr
      obtain ⟨⟨channel, phase⟩, hindex, hrow⟩ := List.mem_filterMap.mp hr
      refine ⟨channel, phase, value, hindex, rfl, ?_⟩
      by_cases helectrical : channel ∈ electricalChannelNames
      · simp only [if_pos helectrical, Option.some.injEq] at hrow
        subst hrow
        have hreading := mt (electricalReading_valid pyd _ phase channel value).mpr
          (Bool.eq_false_iff.mp hinvalid)
        rw [not_and_or, Classical.not_imp] at hreading
        exact hreading.imp_right fun h => ⟨h.1, Bool.eq_false_iff.mpr h.2⟩
      · simp only [if_neg helectrical] at hrow
        split at hrow
        · cases hrow
          rw [weatherReading_valid] at hinvalid
          cases hinvalid
        · cases hrow

/-- In every run, one bad reading spares its neighbours in each request exactly when the client has
them without that request, or keeps them for another try. -/
theorem neighbours_spared_iff (k : Link Line) (sensors : Sensors) (c : Coordinator Line)
    (buffered : List Captured) (s : App) (events : List HomeEvent) :
    let run := events.map (HomeEvent.event k.py sensors)
    Trace.Along (Session.step k) (SparesNeighbours k) (.start c buffered s) run ↔
      Trace.Along (Session.step k) (CoversNeighbours k) (.start c buffered s) run :=
  Trace.Along.congr (spares_iff_covers k)

/-- A sensor of the mains frequency. -/
def mainsSensor : Sensors where
  mapping := [("frequency_hz", [⟨"sensor.mains", none⟩])]
  float s := (Runtime.digits s.toList).map fun n => .fin n

/-- A good reading and a bad one go out in one request, and the server's answer arrives. -/
def brownout : List HomeEvent :=
  let fate : Fate := .processed 0 none
  [.state 0 (some ⟨"sensor.mains", "50", 0⟩), .state 0 (some ⟨"sensor.mains", "35", 0⟩), .timer,
   .resume 0 fate 0, .resume 0 fate 0]

def goodReading : Captured :=
  electricalReading "2026-07-10T09:00:00.000Z" "1p" "frequency_hz" (.fin 50)

def badReading : Captured :=
  electricalReading "2026-07-10T09:00:00.000Z" "1p" "frequency_hz" (.fin 35)

/-- The good reading is nowhere afterwards. -/
theorem bad_reading_drops_good :
    ¬ ∀ (k : Link Json) (sensors : Sensors) (c : Coordinator Json) (s : App)
      (events : List HomeEvent), Trace.Along (Session.step k) (SparesNeighbours k) (.start c [] s)
        (events.map (HomeEvent.event k.py sensors)) := by
  intro h
  obtain ⟨-, -, -, -, hspares, -⟩ := h mainsLink mainsSensor idle mainsApp brownout
  rw [spares_iff_covers] at hspares
  have hrows : requested [goodReading.item, badReading.item] = [goodReading, badReading] :=
    requested_items [goodReading, badReading]
  have hgood : goodReading ∈ requested [goodReading.item, badReading.item] :=
    hrows ▸ List.mem_cons_self
  rcases hspares ⟨[goodReading, badReading], .send⟩ _ mainsNode rfl rfl mains_known
    (by decide +kernel) goodReading hgood (by decide +kernel) with ⟨y, -, hline⟩ | hcovers
  · have hline : mainsApp.tree.Has y.1 (y.1.csvLine y.2) := hline
    rw [mainsApp_empty.1] at hline
    exact StagingTree.not_has_empty hline
  · rcases hcovers with hpending | ⟨j, g, hj, hne, -⟩ | ⟨⟨ex, hex, -⟩, -⟩ | ⟨l, hl, -⟩
    · cases hpending
    · cases j with
      | zero => exact hne rfl
      | succ j => cases hj
    · cases hex
    · cases hl

end GridWitness.Delivery
