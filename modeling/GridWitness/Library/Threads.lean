import Mathlib.Data.List.Induction
import GridWitness.Library.Table
import GridWitness.Library.Trace

universe u

namespace GridWitness.Library

/-- What a thread has left to do with a state it shares: labelled accesses, each one step of the state, until
it is done or raises. What comes after an access depends on the state it found. -/
inductive Prog (σ L ε α : Type u)
  | done (a : α)
  | raise (e : ε)
  | access (label : L) (effect : σ → σ) (next : σ → Prog σ L ε α)

namespace Prog

variable {σ L ε α β : Type u}

def bind : Prog σ L ε α → (α → Prog σ L ε β) → Prog σ L ε β
  | done a, f => f a
  | raise e, _ => raise e
  | access label effect next, f => access label effect fun s => (next s).bind f

instance : Monad (Prog σ L ε) where
  pure := done
  bind := bind

/-- A call of a method that holds the lock of what it reads and changes. -/
def call (label : L) (f : σ → σ × α) : Prog σ L ε α :=
  access label (fun s => (f s).1) fun s => done (f s).2

def ask (label : L) (f : σ → α) : Prog σ L ε α := call label fun s => (s, f s)

def ofExcept : Except ε α → Prog σ L ε α
  | .ok a => done a
  | .error e => raise e

/-- The program run with no other thread in between. -/
def run : Prog σ L ε α → σ → σ × Except ε α
  | done a, s => (s, .ok a)
  | raise e, s => (s, .error e)
  | access _ effect next, s => (next s).run (effect s)

section Run

variable (s : σ)

@[simp] theorem run_pure (a : α) : (pure a : Prog σ L ε α).run s = (s, .ok a) := rfl

@[simp] theorem run_raise (e : ε) : (raise e : Prog σ L ε α).run s = (s, .error e) := rfl

@[simp] theorem run_call (label : L) (f : σ → σ × α) :
    (call label f : Prog σ L ε α).run s = ((f s).1, .ok (f s).2) := rfl

@[simp] theorem run_ask (label : L) (f : σ → α) : (ask label f : Prog σ L ε α).run s = (s, .ok (f s)) := rfl

@[simp] theorem run_ofExcept (x : Except ε α) : (ofExcept x : Prog σ L ε α).run s = (s, x) := by
  cases x <;> rfl

@[simp] theorem run_bind (p : Prog σ L ε α) (f : α → Prog σ L ε β) :
    (p >>= f).run s =
      match p.run s with
      | (s', .ok a) => (f a).run s'
      | (s', .error e) => (s', .error e) := by
  induction p generalizing s with
  | done a => rfl
  | raise e => rfl
  | access label effect next ih => exact ih s (effect s)

end Run

/-- What a program knows at a point: of the states its own accesses found, and of the present one. -/
abbrev Assertion (σ : Type u) := List σ → σ → Prop

section Logic

variable (rely : σ → σ → Prop) (guar : L → List σ → σ → σ → Prop)

/-- What other threads do leaves the assertion true. -/
def Stable (P : Assertion σ) : Prop := ∀ seen s s', rely s s' → P seen s → P seen s'

/-- Started where `P` holds, and whatever other threads do in between, every access of the program meets its
guarantee, and `Q` holds when it is done. -/
def Ensures (Q : α → Assertion σ) : Prog σ L ε α → Assertion σ → Prop
  | done a, P => ∀ seen s, P seen s → Q a seen s
  | raise _, _ => True
  | access label effect next, P =>
    ∀ seen s, P seen s →
      guar label seen s (effect s) ∧
        ∃ P', Stable rely P' ∧ P' (seen ++ [s]) (effect s) ∧ Ensures Q (next s) P'

variable {rely guar} {P P' : Assertion σ} {Q Q' : α → Assertion σ} {R : β → Assertion σ}

theorem Ensures.imp {p : Prog σ L ε α} (h : p.Ensures rely guar Q P) (hP : ∀ seen s, P' seen s → P seen s)
    (hQ : ∀ a seen s, Q a seen s → Q' a seen s) : p.Ensures rely guar Q' P' := by
  induction p generalizing P P' with
  | done a => exact fun seen s hpre => hQ a seen s (h seen s (hP seen s hpre))
  | raise e => trivial
  | access label effect next ih =>
    intro seen s hpre
    obtain ⟨hguar, M, hstable, hM, hnext⟩ := h seen s (hP seen s hpre)
    exact ⟨hguar, M, hstable, hM, ih s hnext fun _ _ h => h⟩

theorem Ensures.pre {p : Prog σ L ε α} (h : p.Ensures rely guar Q P) (hP : ∀ seen s, P' seen s → P seen s) :
    p.Ensures rely guar Q P' :=
  h.imp hP fun _ _ _ h => h

theorem Ensures.bind {p : Prog σ L ε α} {f : α → Prog σ L ε β} (h : p.Ensures rely guar Q P)
    (hf : ∀ a, (f a).Ensures rely guar R (Q a)) : (p >>= f).Ensures rely guar R P := by
  induction p generalizing P with
  | done a => exact (hf a).pre h
  | raise e => trivial
  | access label effect next ih =>
    intro seen s hpre
    obtain ⟨hguar, M, hstable, hM, hnext⟩ := h seen s hpre
    exact ⟨hguar, M, hstable, hM, ih s hnext⟩

/-- A part of what is known that no state changes may be used at once. -/
theorem Ensures.assume {p : Prop} {prog : Prog σ L ε α} (h : p → prog.Ensures rely guar Q P) :
    prog.Ensures rely guar Q fun seen s => P seen s ∧ p := by
  cases prog with
  | done a => exact fun seen s hs => h hs.2 seen s hs.1
  | raise e => trivial
  | access label effect next => exact fun seen s hs => h hs.2 seen s hs.1

theorem Ensures.pure {a : α} (h : ∀ seen s, P seen s → Q a seen s) :
    (pure a : Prog σ L ε α).Ensures rely guar Q P := h

theorem Ensures.raise {e : ε} : (raise e : Prog σ L ε α).Ensures rely guar Q P := trivial

theorem Ensures.call {label : L} {f : σ → σ × α} (hstable : ∀ a, Stable rely (Q a))
    (h : ∀ seen s, P seen s → guar label seen s (f s).1 ∧ Q (f s).2 (seen ++ [s]) (f s).1) :
    (call label f : Prog σ L ε α).Ensures rely guar Q P := by
  intro seen s hpre
  obtain ⟨hguar, hpost⟩ := h seen s hpre
  exact ⟨hguar, Q (f s).2, hstable _, hpost, fun _ _ h => h⟩

theorem Ensures.ofExcept {x : Except ε α} (h : ∀ a, x = .ok a → ∀ seen s, P seen s → Q a seen s) :
    (ofExcept x : Prog σ L ε α).Ensures rely guar Q P := by
  cases x with
  | ok a => exact h a rfl
  | error e => trivial

end Logic

section Once

variable (writes : L → Bool)

/-- No access from here on writes. -/
def Silent : Prog σ L ε α → Prop
  | done _ => True
  | raise _ => True
  | access label _ next => writes label = false ∧ ∀ s, Silent (next s)

/-- At most one access writes. -/
def Once : Prog σ L ε α → Prop
  | done _ => True
  | raise _ => True
  | access label _ next => if writes label then ∀ s, Silent writes (next s) else ∀ s, Once (next s)

variable {writes}

theorem Silent.once {p : Prog σ L ε α} (h : p.Silent writes) : p.Once writes := by
  induction p with
  | done a => trivial
  | raise e => trivial
  | access label effect next ih =>
    rw [Once, h.1]
    exact fun s => ih s (h.2 s)

theorem Silent.bind {p : Prog σ L ε α} {f : α → Prog σ L ε β} (h : p.Silent writes)
    (hf : ∀ a, (f a).Silent writes) : (p >>= f).Silent writes := by
  induction p with
  | done a => exact hf a
  | raise e => trivial
  | access label effect next ih => exact ⟨h.1, fun s => ih s (h.2 s)⟩

theorem Silent.bind_once {p : Prog σ L ε α} {f : α → Prog σ L ε β} (h : p.Silent writes)
    (hf : ∀ a, (f a).Once writes) : (p >>= f).Once writes := by
  induction p with
  | done a => exact hf a
  | raise e => trivial
  | access label effect next ih =>
    change Once writes (access label effect fun s => (next s).bind f)
    rw [Once, h.1]
    exact fun s => ih s (h.2 s)

theorem Silent.call {label : L} {f : σ → σ × α} (h : writes label = false) :
    (call label f : Prog σ L ε α).Silent writes := ⟨h, fun _ => trivial⟩

theorem Silent.ofExcept (x : Except ε α) : (ofExcept x : Prog σ L ε α).Silent writes := by
  cases x <;> trivial

theorem Once.call {label : L} {f : σ → σ × α} : (Prog.call label f : Prog σ L ε α).Once writes := by
  rw [Prog.call, Once]
  split <;> exact fun s => trivial

theorem Once.call_bind {label : L} {f : σ → σ × α} {g : α → Prog σ L ε β} (hg : ∀ a, (g a).Silent writes) :
    (Prog.call label f >>= g).Once writes := by
  change Once writes (access label (fun s => (f s).1) fun s => g (f s).2)
  rw [Once]
  split
  · exact fun s => hg _
  · exact fun s => (hg _).once

end Once

end Prog

/-- A thread: what it was started for, the states its accesses found, and what it has left to do. -/
structure Thread (ι σ L ε α : Type u) where
  origin : ι
  seen : List σ := []
  rest : Prog σ L ε α

/-- Threads over a state they share. -/
structure Pool (ι σ L ε α : Type u) where
  shared : σ
  threads : Table Nat (Thread ι σ L ε α) := ∅

/-- A thread is started, or takes its next access. -/
inductive Turn (ι : Type u)
  | start (key : Nat) (origin : ι)
  | go (key : Nat)

namespace Pool

variable {ι σ L ε α : Type u} (program : ι → Prog σ L ε α)

def step (p : Pool ι σ L ε α) : Turn ι → Pool ι σ L ε α
  | .start key origin =>
    if key ∈ p.threads then p
    else { p with threads := p.threads.replaceRow key { origin, rest := program origin } }
  | .go key =>
    match p.threads.lookup key with
    | none => p
    | some t =>
      match t.rest with
      | .done _ => p
      | .raise _ => p
      | .access _ effect next =>
        { shared := effect p.shared
          threads := p.threads.replaceRow key
            { t with seen := t.seen ++ [p.shared], rest := next p.shared } }

def after (p : Pool ι σ L ε α) (turns : List (Turn ι)) : Pool ι σ L ε α := turns.foldl (step program) p

/-- A thread takes an access on its turn. -/
structure Takes (p : Pool ι σ L ε α) (key : Nat) (t : Thread ι σ L ε α) (label : L) (effect : σ → σ)
    (next : σ → Prog σ L ε α) : Prop where
  thread : p.threads.lookup key = some t
  rest : t.rest = .access label effect next

/-- The pool after a turn that takes an access. -/
def taken (p : Pool ι σ L ε α) (key : Nat) (t : Thread ι σ L ε α) (effect : σ → σ)
    (next : σ → Prog σ L ε α) : Pool ι σ L ε α where
  shared := effect p.shared
  threads := p.threads.replaceRow key { t with seen := t.seen ++ [p.shared], rest := next p.shared }

/-- An access of a run: the thread that took it, what that was started for, and its label. -/
structure Entry (ι L : Type u) where
  key : Nat
  origin : ι
  label : L

/-- The access a turn takes, if there is one. -/
def entry (p : Pool ι σ L ε α) : Turn ι → Option (Entry ι L)
  | .start _ _ => none
  | .go key =>
    match p.threads.lookup key with
    | none => none
    | some t =>
      match t.rest with
      | .done _ => none
      | .raise _ => none
      | .access label _ _ => some ⟨key, t.origin, label⟩

/-- The accesses of a run, in the order they are taken in. -/
def log : Pool ι σ L ε α → List (Turn ι) → List (Entry ι L)
  | _, [] => []
  | p, turn :: turns => (p.entry turn).toList ++ log (p.step program turn) turns

/-- What a turn does: it starts a thread, takes one access of one, or does nothing. -/
inductive Step (p : Pool ι σ L ε α) : Turn ι → Pool ι σ L ε α → Option (Entry ι L) → Prop
  | idle (turn : Turn ι) : Step p turn p none
  | start (key : Nat) (origin : ι) (fresh : p.threads.lookup key = none) :
    Step p (.start key origin)
      { p with threads := p.threads.replaceRow key { origin, rest := program origin } } none
  | go (key : Nat) (t : Thread ι σ L ε α) (label : L) (effect : σ → σ) (next : σ → Prog σ L ε α)
      (takes : p.Takes key t label effect next) :
    Step p (.go key) (p.taken key t effect next) (some ⟨key, t.origin, label⟩)

theorem step_step (p : Pool ι σ L ε α) (turn : Turn ι) :
    p.Step program turn (p.step program turn) (p.entry turn) := by
  cases turn with
  | start key origin =>
    simp only [step]
    split
    · exact .idle _
    · next hfresh => exact .start key origin (AList.lookup_eq_none.mpr hfresh)
  | go key =>
    simp only [step, entry]
    cases ht : p.threads.lookup key with
    | none => exact .idle _
    | some t =>
      dsimp only
      cases hrest : t.rest with
      | done a => exact .idle _
      | raise e => exact .idle _
      | access label effect next => exact .go key t label effect next ⟨ht, hrest⟩

/-- The access an entry is for. -/
theorem entry_takes {p : Pool ι σ L ε α} {turn : Turn ι} {e : Entry ι L} (h : p.entry turn = some e) :
    ∃ t effect next, p.Takes e.key t e.label effect next ∧ t.origin = e.origin ∧
      p.step program turn = p.taken e.key t effect next := by
  have hstep := p.step_step program turn
  rw [h] at hstep
  generalize p.step program turn = p' at hstep
  cases hstep with
  | go key t label effect next takes => exact ⟨t, effect, next, takes, rfl, rfl⟩

section Sound

variable {program} {rely : σ → σ → Prop} {guar : ι → L → List σ → σ → σ → Prop} {I : σ → Prop}

/-- Every program keeps to its guarantee as long as the others do, and what one guarantees the others rely
on. -/
structure Rules (program : ι → Prog σ L ε α) (rely : σ → σ → Prop) (guar : ι → L → List σ → σ → σ → Prop)
    (I : σ → Prop) : Prop where
  keep : ∀ s s', rely s s' → I s → I s'
  programs : ∀ i, (program i).Ensures rely (guar i) (fun _ _ _ => True) fun seen s => seen = [] ∧ I s
  others : ∀ i label seen s s', I s → guar i label seen s s' → rely s s'

/-- Every thread is at a point where what it knows is enough for the rest of it. -/
structure Safe (rely : σ → σ → Prop) (guar : ι → L → List σ → σ → σ → Prop) (I : σ → Prop)
    (p : Pool ι σ L ε α) : Prop where
  shared : I p.shared
  threads : ∀ key t, p.threads.lookup key = some t → ∃ P, Prog.Stable rely P ∧ P t.seen p.shared ∧
    t.rest.Ensures rely (guar t.origin) (fun _ _ _ => True) P

theorem Safe.guaranteed {p : Pool ι σ L ε α} (h : p.Safe rely guar I) {key : Nat} {t : Thread ι σ L ε α} {label : L}
    {effect : σ → σ} {next : σ → Prog σ L ε α} (ht : p.Takes key t label effect next) :
    guar t.origin label t.seen p.shared (effect p.shared) := by
  obtain ⟨P, -, hP, hrest⟩ := h.threads key t ht.thread
  rw [ht.rest] at hrest
  exact (hrest t.seen p.shared hP).1

theorem Safe.step (h : Rules program rely guar I) {p : Pool ι σ L ε α} (hp : p.Safe rely guar I)
    (turn : Turn ι) : (p.step program turn).Safe rely guar I := by
  have hstep := p.step_step program turn
  generalize p.step program turn = p', p.entry turn = taken at hstep
  cases hstep with
  | idle => exact hp
  | start key origin fresh =>
    refine ⟨hp.shared, fun key' t' ht' => ?_⟩
    rw [Table.lookup_replaceRow] at ht'
    split at ht'
    · cases ht'
      refine ⟨fun seen s => seen = [] ∧ I s, fun seen s s' hrely hs => ⟨hs.1, h.keep s s' hrely hs.2⟩,
        ⟨rfl, hp.shared⟩, h.programs origin⟩
    · exact hp.threads key' t' ht'
  | go key t label effect next takes =>
    have hrely := h.others _ _ _ _ _ hp.shared (hp.guaranteed takes)
    refine ⟨h.keep _ _ hrely hp.shared, fun key' t' ht' => ?_⟩
    simp only [taken] at ht' ⊢
    rw [Table.lookup_replaceRow] at ht'
    split at ht'
    · cases ht'
      obtain ⟨P, -, hP, hrest⟩ := hp.threads key t takes.thread
      rw [takes.rest] at hrest
      obtain ⟨-, P', hstable, hP', hnext⟩ := hrest t.seen p.shared hP
      exact ⟨P', hstable, hP', hnext⟩
    · obtain ⟨P, hstable, hP, hrest⟩ := hp.threads key' t' ht'
      exact ⟨P, hstable, hstable _ _ _ hrely hP, hrest⟩

theorem start_safe {s : σ} (hs : I s) : (⟨s, ∅⟩ : Pool ι σ L ε α).Safe rely guar I :=
  ⟨hs, fun key t ht => by simp at ht⟩

theorem Safe.after (h : Rules program rely guar I) {p : Pool ι σ L ε α} (hp : p.Safe rely guar I)
    (turns : List (Turn ι)) : (p.after program turns).Safe rely guar I :=
  Trace.foldl_invariant (I := fun p : Pool ι σ L ε α => p.Safe rely guar I) (fun _ turn h' => h'.step h turn) hp
    turns

/-- What every program relies on the others to keep, the pool keeps. -/
theorem Safe.keeps (h : Rules program rely guar I) {J : σ → Prop} (hJ : ∀ s s', I s → rely s s' → J s → J s')
    {p : Pool ι σ L ε α} (hp : p.Safe rely guar I) (hs : J p.shared) (turns : List (Turn ι)) :
    J (p.after program turns).shared := by
  refine (Trace.foldl_invariant (I := fun p : Pool ι σ L ε α => p.Safe rely guar I ∧ J p.shared)
    (fun p turn hp => ⟨hp.1.step h turn, ?_⟩) ⟨hp, hs⟩ turns).2
  have hstep := p.step_step program turn
  generalize p.step program turn = p', p.entry turn = taken at hstep
  cases hstep with
  | idle => exact hp.2
  | start => exact hp.2
  | go key t label effect next takes =>
    exact hJ _ _ hp.1.shared (h.others _ _ _ _ _ hp.1.shared (hp.1.guaranteed takes)) hp.2

/-- Where every access that writes does what one sequential service would, and no other access shows, the run
comes to what the service comes to, one origin after the other. -/
theorem Safe.serializes {τ : Type u} (h : Rules program rely guar I) {writes : L → Bool} {serve : τ → ι → τ}
    {R : σ → τ → Prop}
    (hquiet : ∀ i label seen s s' q, I s → guar i label seen s s' → writes label = false → R s q → R s' q)
    (hcommit : ∀ i label seen s s' q, I s → guar i label seen s s' → writes label = true → R s q →
      R s' (serve q i))
    {p : Pool ι σ L ε α} (hp : p.Safe rely guar I) {q : τ} (hR : R p.shared q) (turns : List (Turn ι)) :
    R (p.after program turns).shared
      ((((p.log program turns).filter (writes ·.label)).map (·.origin)).foldl serve q) := by
  induction turns generalizing p q with
  | nil => exact hR
  | cons turn turns ih =>
    have hnext := hp.step h turn
    rw [log, List.filter_append, List.map_append, List.foldl_append]
    refine ih hnext ?_
    have hstep := p.step_step program turn
    generalize p.step program turn = p', p.entry turn = taken at hstep
    cases hstep with
    | idle => exact hR
    | start => exact hR
    | go key t label effect next takes =>
      have hguar := hp.guaranteed takes
      cases hwrites : writes label with
      | false =>
        simp only [Option.toList_some, List.filter_cons, hwrites, Bool.false_eq_true, if_false, List.filter_nil,
          List.map_nil, List.foldl_nil]
        exact hquiet _ _ _ _ _ _ hp.shared hguar hwrites hR
      | true =>
        simp only [Option.toList_some, List.filter_cons, hwrites, if_true, List.filter_nil, List.map_cons,
          List.map_nil, List.foldl_cons, List.foldl_nil]
        exact hcommit _ _ _ _ _ _ hp.shared hguar hwrites hR

end Sound

section Once

variable {program} {writes : L → Bool} {p : Pool ι σ L ε α}

variable (program) in
/-- A thread that is to write no more does not. -/
theorem silent_log {key : Nat} {t : Thread ι σ L ε α} (ht : p.threads.lookup key = some t)
    (hsilent : t.rest.Silent writes) (turns : List (Turn ι)) :
    ∀ e ∈ (p.log program turns).filter (writes ·.label), e.key ≠ key := by
  induction turns generalizing p t with
  | nil => exact fun e he => by cases he
  | cons turn turns ih =>
    rw [log, List.filter_append]
    have hstep := p.step_step program turn
    generalize p.step program turn = p', p.entry turn = taken at hstep
    cases hstep with
    | idle => exact ih ht hsilent
    | start key' origin fresh =>
      refine ih (t := t) ?_ hsilent
      rw [Table.lookup_replaceRow, if_neg, ht]
      rintro rfl
      rw [ht] at fresh
      cases fresh
    | go key' t' label effect next takes =>
      intro e he
      by_cases hkey : key' = key
      · subst hkey
        obtain rfl : t = t' := Option.some.inj (ht.symm.trans takes.thread)
        rw [takes.rest] at hsilent
        rw [Option.toList_some, List.filter_cons, hsilent.1] at he
        refine ih (t := { t with seen := t.seen ++ [p.shared], rest := next p.shared }) ?_ (hsilent.2 p.shared) e he
        rw [taken, Table.lookup_replaceRow, if_pos rfl]
      · rcases List.mem_append.mp he with he | he
        · obtain rfl := List.mem_singleton.mp (List.mem_of_mem_filter he)
          exact hkey
        · refine ih (t := t) ?_ hsilent e he
          rw [taken, Table.lookup_replaceRow, if_neg (Ne.symm hkey), ht]

/-- Threads that each write at most once. -/
theorem once_log (honce : ∀ i, (program i).Once writes)
    (hp : ∀ key t, p.threads.lookup key = some t → t.rest.Once writes) (turns : List (Turn ι)) :
    (((p.log program turns).filter (writes ·.label)).map (·.key)).Nodup := by
  induction turns generalizing p with
  | nil => exact List.nodup_nil
  | cons turn turns ih =>
    rw [log, List.filter_append, List.map_append]
    have hstep := p.step_step program turn
    generalize p.step program turn = p', p.entry turn = taken at hstep
    cases hstep with
    | idle => exact ih hp
    | start key origin fresh =>
      refine ih fun key' t' ht' => ?_
      rw [Table.lookup_replaceRow] at ht'
      split at ht'
      · cases ht'
        exact honce origin
      · exact hp key' t' ht'
    | go key t label effect next takes =>
      have hrest := hp key t takes.thread
      rw [takes.rest, Prog.Once] at hrest
      have hown : (p.taken key t effect next).threads.lookup key =
          some { t with seen := t.seen ++ [p.shared], rest := next p.shared } := by
        rw [taken, Table.lookup_replaceRow, if_pos rfl]
      have hlater := ih (p := p.taken key t effect next) fun key' t' ht' => by
        rw [taken, Table.lookup_replaceRow] at ht'
        split at ht'
        · cases ht'
          split at hrest
          · exact (hrest p.shared).once
          · exact hrest p.shared
        · exact hp key' t' ht'
      cases hwrites : writes label with
      | false => simpa [hwrites] using hlater
      | true =>
        rw [hwrites, if_pos rfl] at hrest
        have hsilent := silent_log program hown (hrest p.shared) turns
        simp only [Option.toList_some, List.filter_cons, hwrites, if_true, List.filter_nil, List.map_cons,
          List.map_nil, List.singleton_append, List.nodup_cons]
        refine ⟨fun hmem => ?_, hlater⟩
        obtain ⟨e, he, hkey⟩ := List.mem_map.mp hmem
        exact hsilent e he hkey

end Once

/-- The states a thread has seen are states of the run, from its start on. -/
theorem seen_reached (s : σ) (turns : List (Turn ι)) {key : Nat} {t : Thread ι σ L ε α}
    (ht : ((⟨s, ∅⟩ : Pool ι σ L ε α).after program turns).threads.lookup key = some t) :
    ∀ x ∈ t.seen, ∃ before later t₀, turns = before ++ later ∧
      ((⟨s, ∅⟩ : Pool ι σ L ε α).after program before).shared = x ∧
      ((⟨s, ∅⟩ : Pool ι σ L ε α).after program before).threads.lookup key = some t₀ ∧ t₀.origin = t.origin := by
  induction turns using List.reverseRecOn generalizing t with
  | nil => simp [after] at ht
  | append_singleton turns turn ih =>
    have hold : ∀ {t' : Thread ι σ L ε α},
        ((⟨s, ∅⟩ : Pool ι σ L ε α).after program turns).threads.lookup key = some t' → t'.origin = t.origin →
        ∀ x ∈ t'.seen, ∃ before later t₀, turns ++ [turn] = before ++ later ∧
          ((⟨s, ∅⟩ : Pool ι σ L ε α).after program before).shared = x ∧
          ((⟨s, ∅⟩ : Pool ι σ L ε α).after program before).threads.lookup key = some t₀ ∧
          t₀.origin = t.origin := by
      intro t' ht' horigin x hx
      obtain ⟨before, later, t₀, rfl, hshared, ht₀, horigin₀⟩ := ih ht' x hx
      exact ⟨before, later ++ [turn], t₀, List.append_assoc _ _ _, hshared, ht₀, horigin₀.trans horigin⟩
    have hlast : ((⟨s, ∅⟩ : Pool ι σ L ε α).after program (turns ++ [turn])) =
        ((⟨s, ∅⟩ : Pool ι σ L ε α).after program turns).step program turn := by
      rw [after, List.foldl_append]
      rfl
    rw [hlast] at ht
    have hstep := ((⟨s, ∅⟩ : Pool ι σ L ε α).after program turns).step_step program turn
    generalize ((⟨s, ∅⟩ : Pool ι σ L ε α).after program turns).step program turn = p',
      ((⟨s, ∅⟩ : Pool ι σ L ε α).after program turns).entry turn = taken at hstep ht
    cases hstep with
    | idle => exact hold ht rfl
    | start key' origin fresh =>
      rw [Table.lookup_replaceRow] at ht
      split at ht
      · cases ht
        exact fun x hx => by cases hx
      · exact hold ht rfl
    | go key' t' label effect next takes =>
      simp only [taken] at ht
      rw [Table.lookup_replaceRow] at ht
      split at ht
      · next hkey =>
        subst hkey
        cases ht
        intro x hx
        rcases List.mem_append.mp hx with hx | hx
        · exact hold takes.thread rfl x hx
        · obtain rfl := List.mem_singleton.mp hx
          exact ⟨turns, [.go key], t', rfl, rfl, takes.thread, rfl⟩
      · exact hold ht rfl

end Pool

end GridWitness.Library
