universe u v w

namespace GridWitness.Library.Trace

variable {σ : Type u} {α : Type v} {f : σ → α → σ} {ok : σ → α → Prop} {I : σ → Prop}

/-- Every step of the run of a list of labels meets a condition in the state it starts from. -/
def Along (f : σ → α → σ) (ok : σ → α → Prop) : σ → List α → Prop
  | _, [] => True
  | s, a :: as => ok s a ∧ Along f ok (f s a) as

def Along.decide [∀ s a, Decidable (ok s a)] : ∀ s as, Decidable (Along f ok s as)
  | _, [] => isTrue trivial
  | s, a :: as => @instDecidableAnd _ _ _ (Along.decide (f s a) as)

instance [∀ s a, Decidable (ok s a)] (s : σ) (as : List α) : Decidable (Along f ok s as) :=
  Along.decide s as

theorem Along.append {s : σ} {as bs : List α} :
    Along f ok s (as ++ bs) ↔ Along f ok s as ∧ Along f ok (as.foldl f s) bs := by
  induction as generalizing s with
  | nil => simp [Along]
  | cons a as ih => simp [Along, ih, and_assoc]

theorem Along.and {ok' : σ → α → Prop} {s : σ} {as : List α} (h : Along f ok s as)
    (h' : Along f ok' s as) : Along f (fun s a => ok s a ∧ ok' s a) s as := by
  induction as generalizing s with
  | nil => trivial
  | cons a as ih => exact ⟨⟨h.1, h'.1⟩, ih h.2 h'.2⟩

theorem Along.congr {ok' : σ → α → Prop} (h : ∀ s a, ok s a ↔ ok' s a) {s : σ} {as : List α} :
    Along f ok s as ↔ Along f ok' s as := by
  induction as generalizing s with
  | nil => rfl
  | cons a as ih => rw [Along, Along, h s a, ih]

/-- What every step that meets the condition preserves, a run along it preserves. -/
theorem Along.invariant (keep : ∀ s a, I s → ok s a → I (f s a)) {s : σ} {as : List α}
    (h : Along f ok s as) (hs : I s) : I (as.foldl f s) := by
  induction as generalizing s with
  | nil => exact hs
  | cons a as ih => exact ih h.2 (keep s a hs h.1)

/-- Along a run that keeps `I`, a condition may be replaced by one it implies under `I`. -/
theorem Along.imp {ok' : σ → α → Prop} (keep : ∀ s a, I s → ok s a → I (f s a))
    (imp : ∀ s a, I s → ok s a → ok' s a) {s : σ} {as : List α} (h : Along f ok s as) (hs : I s) :
    Along f ok' s as := by
  induction as generalizing s with
  | nil => trivial
  | cons a as ih => exact ⟨imp s a hs h.1, ih h.2 (keep s a hs h.1)⟩

/-- Where every step keeps `I` exactly when it meets the condition, `I` at the end says that the
whole run met it. -/
theorem Along.iff_of_step {F : σ → Prop} (keep : ∀ s a, F s → F (f s a))
    (exact : ∀ s a, F s → (I (f s a) ↔ I s ∧ ok s a)) {s : σ} {as : List α} (hs : F s) :
    I (as.foldl f s) ↔ I s ∧ Along f ok s as := by
  induction as generalizing s with
  | nil => simp [Along]
  | cons a as ih => rw [List.foldl_cons, ih (keep s a hs), exact s a hs, Along, and_assoc]

/-- Where a step from a state with `I` keeps `I` exactly when it meets the condition, `I` holds
after every step exactly when every step meets it. -/
theorem Along.iff_each (exact : ∀ s a, I s → (I (f s a) ↔ ok s a)) {s : σ} {as : List α} (hs : I s) :
    Along f (fun s a => I (f s a)) s as ↔ Along f ok s as := by
  induction as generalizing s with
  | nil => rfl
  | cons a as ih =>
    rw [Along, Along, ← exact s a hs]
    exact and_congr_right fun h => ih h

theorem foldl_invariant (keep : ∀ s a, I s → I (f s a)) {s : σ} (hs : I s) (as : List α) :
    I (as.foldl f s) := by
  induction as generalizing s with
  | nil => exact hs
  | cons a as ih => exact ih (keep s a hs)

/-- The labels of a run without those whose steps meet a condition. -/
def without (f : σ → α → σ) (drop : σ → α → Bool) : σ → List α → List α
  | _, [] => []
  | s, a :: as => if drop s a then without f drop (f s a) as else a :: without f drop (f s a) as

/-- What the steps of a run put out, without those that meet a condition. -/
def outputs {β : Type w} (f : σ → α → σ) (drop : σ → α → Bool) (out : σ → α → β) : σ → List α → List β
  | _, [] => []
  | s, a :: as =>
    if drop s a then outputs f drop out (f s a) as else out s a :: outputs f drop out (f s a) as

/-- Steps that the steps to come cannot tell from none may be left out: what is left drops no more, and puts
out the same. -/
theorem without_simulates {β : Type w} {drop : σ → α → Bool} {out : σ → α → β} {R : List α → σ → σ → Prop}
    (hdropped : ∀ a as s s', R (a :: as) s s' → drop s a = true → R as (f s a) s')
    (hkept : ∀ a as s s', R (a :: as) s s' → drop s a = false →
      R as (f s a) (f s' a) ∧ drop s' a = false ∧ out s a = out s' a)
    {s s' : σ} {as : List α} (hR : R as s s') :
    R [] (as.foldl f s) ((without f drop s as).foldl f s') ∧
      without f drop s' (without f drop s as) = without f drop s as ∧
      outputs f drop out s' (without f drop s as) = outputs f drop out s as := by
  induction as generalizing s s' with
  | nil => exact ⟨hR, rfl, rfl⟩
  | cons a as ih =>
    cases hdrop : drop s a with
    | true =>
      simp only [without, outputs, hdrop, if_true, List.foldl_cons]
      exact ih (hdropped a as s s' hR hdrop)
    | false =>
      obtain ⟨hnext, hdrop', hout⟩ := hkept a as s s' hR hdrop
      obtain ⟨hend, hwithout, houts⟩ := ih hnext
      simp only [without, outputs, hdrop, hdrop', Bool.false_eq_true, if_false, List.foldl_cons]
      exact ⟨hend, by rw [hwithout], by rw [hout, houts]⟩

end GridWitness.Library.Trace
