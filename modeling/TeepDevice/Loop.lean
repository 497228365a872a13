import Mathlib.Order.WellFounded

/-! While loops as a body that either goes on with a new state or leaves with a
result. `iter` bounds the passes by fuel; `eval` is total for a body whose
continuing passes decrease a measure. Nothing here names a program. -/
namespace TeepDevice.Loop

variable {σ ρ : Type}

def iter (body : σ → σ ⊕ ρ) : Nat → σ → Option ρ
  | 0, _ => none
  | fuel + 1, s =>
    match body s with
    | .inl s' => iter body fuel s'
    | .inr r => some r

theorem iter_mono {body : σ → σ ⊕ ρ} {n m : Nat} {s : σ} {r : ρ}
    (h : iter body n s = some r) (le : n ≤ m) : iter body m s = some r := by
  induction n generalizing m s with
  | zero => cases h
  | succ n ih =>
    cases m with
    | zero => omega
    | succ m =>
      simp only [iter] at h ⊢
      cases step : body s with
      | inl s' =>
        simp only [step] at h
        exact ih h (Nat.le_of_succ_le_succ le)
      | inr r' =>
        simp only [step] at h
        exact h

theorem iter_unique {body : σ → σ ⊕ ρ} {n m : Nat} {s : σ} {r r' : ρ}
    (h : iter body n s = some r) (h' : iter body m s = some r') : r = r' := by
  have left := iter_mono h (Nat.le_max_left n m)
  have right := iter_mono h' (Nat.le_max_right n m)
  exact Option.some.inj (left.symm.trans right)

/-- A body that goes on from every state of an invariant never leaves. -/
theorem iter_diverges {body : σ → σ ⊕ ρ} (inv : σ → Prop)
    (goes : ∀ s, inv s → ∃ s', body s = .inl s' ∧ inv s') (n : Nat) {s : σ} (initial : inv s) :
    iter body n s = none := by
  induction n generalizing s with
  | zero => rfl
  | succ n ih =>
    obtain ⟨s', pass, next⟩ := goes s initial
    simp only [iter, pass]
    exact ih next

/-- A map that commutes with one pass commutes with the loop. -/
theorem iter_map {τ υ : Type} {body : σ → σ ⊕ ρ} {body' : τ → τ ⊕ υ} {f : σ → τ} {g : ρ → υ}
    (pass : ∀ s, body' (f s) = Sum.map f g (body s)) (n : Nat) (s : σ) :
    iter body' n (f s) = (iter body n s).map g := by
  induction n generalizing s with
  | zero => rfl
  | succ n ih =>
    simp only [iter, pass]
    cases body s with
    | inl s' => exact ih s'
    | inr r => rfl

/-- Changing the body where it leaves with a bad result changes no good result. -/
theorem iter_replace {body body' : σ → σ ⊕ ρ} (good : ρ → Prop)
    (same : ∀ s, body' s = body s ∨ ∃ r, body s = .inr r ∧ ¬ good r) {n : Nat} {s : σ} {r : ρ}
    (h : iter body n s = some r) (fine : good r) : iter body' n s = some r := by
  induction n generalizing s with
  | zero => cases h
  | succ n ih =>
    simp only [iter] at h ⊢
    rcases same s with equal | ⟨bad, leaves, wrong⟩
    · rw [equal]
      cases step : body s with
      | inl s' =>
        rw [step] at h
        exact ih h
      | inr r' =>
        rw [step] at h
        exact h
    · rw [leaves] at h
      cases Option.some.inj h
      exact absurd fine wrong

/-- Partial correctness: an invariant of the continuing passes reaches the result. -/
theorem iter_invariant {body : σ → σ ⊕ ρ} (inv : σ → Prop) (post : ρ → Prop)
    (stays : ∀ s s', inv s → body s = .inl s' → inv s')
    (leaves : ∀ s r, inv s → body s = .inr r → post r)
    {n : Nat} {s : σ} {r : ρ} (start : inv s) (h : iter body n s = some r) : post r := by
  induction n generalizing s with
  | zero => cases h
  | succ n ih =>
    simp only [iter] at h
    cases step : body s with
    | inl s' =>
      simp only [step] at h
      exact ih (stays s s' start step) h
    | inr r' =>
      simp only [step] at h
      exact Option.some.inj h ▸ leaves s r' start step

/-- Termination: a body that descends along a well-founded relation while the
invariant holds leaves after finitely many passes. -/
theorem iter_terminates {body : σ → σ ⊕ ρ} (inv : σ → Prop) {lt : σ → σ → Prop}
    (wf : WellFounded lt)
    (stays : ∀ s s', inv s → body s = .inl s' → inv s' ∧ lt s' s)
    (s : σ) (start : inv s) : ∃ n r, iter body n s = some r := by
  induction s using wf.induction with
  | _ s ih =>
    cases step : body s with
    | inl s' =>
      have next := stays s s' start step
      obtain ⟨n, r, h⟩ := ih s' next.2 next.1
      exact ⟨n + 1, r, by simp only [iter, step, h]⟩
    | inr r => exact ⟨1, r, by simp only [iter, step]⟩

/-- Every continuing pass makes the measure smaller. -/
def Decreasing (body : σ → σ ⊕ ρ) (measure : σ → Nat) : Prop :=
  ∀ s s', body s = .inl s' → measure s' < measure s

/-- The passes of `eval`; the proof keeps the measure below the fuel, so the
structural recursion never runs dry and still computes. -/
def evalFuel (body : σ → σ ⊕ ρ) (measure : σ → Nat) (dec : Decreasing body measure) :
    (fuel : Nat) → (s : σ) → measure s < fuel → ρ
  | 0, s, h => absurd h (Nat.not_lt_zero (measure s))
  | fuel + 1, s, h =>
    match step : body s with
    | .inl s' => evalFuel body measure dec fuel s'
        (Nat.lt_of_lt_of_le (dec s s' step) (Nat.le_of_lt_succ h))
    | .inr r => r

def eval (body : σ → σ ⊕ ρ) (measure : σ → Nat) (dec : Decreasing body measure) (s : σ) : ρ :=
  evalFuel body measure dec (measure s + 1) s (Nat.lt_succ_self (measure s))

theorem evalFuel_iter {body : σ → σ ⊕ ρ} {measure : σ → Nat} (dec : Decreasing body measure)
    (fuel : Nat) (s : σ) (h : measure s < fuel) :
    iter body fuel s = some (evalFuel body measure dec fuel s h) := by
  induction fuel generalizing s with
  | zero => exact absurd h (Nat.not_lt_zero _)
  | succ fuel ih =>
    simp only [iter, evalFuel]
    split
    · rename_i s' step
      rw [ih s' (Nat.lt_of_lt_of_le (dec s s' step) (Nat.le_of_lt_succ h))]
      split
      · rename_i t again
        have same : s' = t := Sum.inl.inj (step.symm.trans again)
        subst same
        rfl
      · rename_i r again
        cases step.symm.trans again
    · rename_i r step
      split
      · rename_i t again
        cases step.symm.trans again
      · rename_i r' again
        exact congrArg some (Sum.inr.inj (step.symm.trans again))

variable {body : σ → σ ⊕ ρ} {measure : σ → Nat} (dec : Decreasing body measure)

theorem eval_iter (s : σ) : iter body (measure s + 1) s = some (eval body measure dec s) :=
  evalFuel_iter dec (measure s + 1) s (Nat.lt_succ_self (measure s))

theorem eval_unfold (s : σ) :
    eval body measure dec s =
      match body s with
      | .inl s' => eval body measure dec s'
      | .inr r => r := by
  have whole := eval_iter dec s
  cases step : body s with
  | inl s' =>
    simp only [iter, step] at whole
    exact iter_unique (iter_mono whole (Nat.le_refl _)) (eval_iter dec s')
  | inr r =>
    simp only [iter, step] at whole
    exact (Option.some.inj whole).symm

/-- Total correctness: what the leaving pass establishes and every continuing
pass carries back holds between the start and the result. -/
theorem eval_induct (post : σ → ρ → Prop)
    (leaves : ∀ s r, body s = .inr r → post s r)
    (carries : ∀ s s' r, body s = .inl s' → post s' r → post s r) (s : σ) :
    post s (eval body measure dec s) := by
  induction hm : measure s using Nat.strong_induction_on generalizing s with
  | _ m ih =>
    rw [eval_unfold]
    cases step : body s with
    | inl s' =>
      have below : measure s' < m := hm ▸ dec s s' step
      exact carries s s' _ step (ih (measure s') below s' rfl)
    | inr r => exact leaves s r step

/-- Two loops whose passes stay related give related results. -/
theorem eval_related {τ υ : Type} {body' : τ → τ ⊕ υ} {measure' : τ → Nat}
    (dec' : Decreasing body' measure') (rel : σ → τ → Prop) (post : ρ → υ → Prop)
    (step : ∀ s t, rel s t → Sum.LiftRel rel post (body s) (body' t)) (s : σ) (t : τ)
    (start : rel s t) : post (eval body measure dec s) (eval body' measure' dec' t) := by
  induction hm : measure s using Nat.strong_induction_on generalizing s t with
  | _ m ih =>
    rw [eval_unfold dec, eval_unfold dec']
    have related := step s t start
    cases passed : body s with
    | inl s' =>
      cases passed' : body' t with
      | inl t' =>
        rw [passed, passed'] at related
        cases related with
        | inl on => exact ih (measure s') (hm ▸ dec s s' passed) s' t' on rfl
      | inr r' =>
        rw [passed, passed'] at related
        cases related
    | inr r =>
      cases passed' : body' t with
      | inl t' =>
        rw [passed, passed'] at related
        cases related
      | inr r' =>
        rw [passed, passed'] at related
        cases related with
        | inr out => exact out

end TeepDevice.Loop
