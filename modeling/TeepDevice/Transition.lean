/-! Labelled transition systems: runs, invariants and functional simulations.
Nothing here names a program. -/
namespace TeepDevice.Transition

variable {σ τ α : Type}

/-- Finitely many steps, the last one outermost. -/
inductive Run (step : σ → α → σ → Prop) : σ → List α → σ → Prop where
  | nil (s : σ) : Run step s [] s
  | snoc {s t u : σ} {labels : List α} {a : α} (run : Run step s labels t) (last : step t a u) :
    Run step s (labels ++ [a]) u

/-- The steps that meet a condition on the state before and the label. -/
def Guarded (ok : σ → α → Prop) (step : σ → α → σ → Prop) : σ → α → σ → Prop :=
  fun s a t => ok s a ∧ step s a t

theorem Run.invariant {step : σ → α → σ → Prop} (inv : σ → Prop)
    (keeps : ∀ s a t, inv s → step s a t → inv t) {s t : σ} {labels : List α}
    (run : Run step s labels t) (initial : inv s) : inv t := by
  induction run with
  | nil => exact initial
  | snoc _ last ih => exact keeps _ _ _ ih last

theorem Run.mono {step step' : σ → α → σ → Prop} (weaker : ∀ s a t, step s a t → step' s a t)
    {s t : σ} {labels : List α} (run : Run step s labels t) : Run step' s labels t := by
  induction run with
  | nil => exact .nil s
  | snoc _ last ih => exact .snoc ih (weaker _ _ _ last)

theorem Run.of_guarded {ok : σ → α → Prop} {step : σ → α → σ → Prop} {s t : σ} {labels : List α}
    (run : Run (Guarded ok step) s labels t) : Run step s labels t :=
  run.mono fun _ _ _ guarded => guarded.2

/-- A function that carries steps to steps carries runs to runs. -/
theorem Run.map {step : σ → α → σ → Prop} {step' : τ → α → τ → Prop} (f : σ → τ)
    (carries : ∀ s a t, step s a t → step' (f s) a (f t)) {s t : σ} {labels : List α}
    (run : Run step s labels t) : Run step' (f s) labels (f t) := by
  induction run with
  | nil => exact .nil (f s)
  | snoc _ last ih => exact .snoc ih (carries _ _ _ last)

theorem Run.cons {step : σ → α → σ → Prop} {s t u : σ} {a : α} {labels : List α}
    (first : step s a t) (rest : Run step t labels u) : Run step s (a :: labels) u := by
  induction rest with
  | nil => exact .snoc (.nil s) first
  | snoc _ last ih => exact .snoc ih last

theorem Run.append {step : σ → α → σ → Prop} {s t u : σ} {labels more : List α}
    (run : Run step s labels t) (further : Run step t more u) : Run step s (labels ++ more) u := by
  induction further with
  | nil =>
    rw [List.append_nil]
    exact run
  | snoc _ last ih =>
    rw [← List.append_assoc]
    exact .snoc ih last

theorem Run.deterministic {step : σ → α → σ → Prop}
    (unique : ∀ s a t u, step s a t → step s a u → t = u) {s t u : σ} {labels : List α}
    (run : Run step s labels t) (run' : Run step s labels u) : t = u := by
  induction run generalizing u with
  | nil =>
    generalize empty : ([] : List α) = labels at run'
    cases run' with
    | nil => rfl
    | snoc _ _ => cases (List.append_ne_nil_of_right_ne_nil _ (List.cons_ne_nil _ _)) empty.symm
  | @snoc t v labels a _ last ih =>
    generalize whole : labels ++ [a] = labels' at run'
    cases run' with
    | nil => cases (List.append_ne_nil_of_right_ne_nil _ (List.cons_ne_nil _ _)) whole
    | snoc before' last' =>
      obtain ⟨rfl, same⟩ := List.append_inj' whole rfl
      cases List.cons.inj same |>.1
      cases ih before'
      exact unique _ _ _ _ last last'

/-- The run of a step function on given labels. -/
def exec (step : σ → α → Option σ) : σ → List α → Option σ
  | s, [] => some s
  | s, a :: labels =>
    match step s a with
    | none => none
    | some t => exec step t labels

theorem Run.of_exec {step : σ → α → σ → Prop} {f : σ → α → Option σ}
    (sound : ∀ s a t, f s a = some t → step s a t) {s t : σ} {labels : List α}
    (executed : exec f s labels = some t) : Run step s labels t := by
  induction labels generalizing s with
  | nil =>
    cases executed
    exact .nil _
  | cons a labels ih =>
    simp only [exec] at executed
    split at executed
    · cases executed
    · rename_i next first
      exact .cons (sound s a next first) (ih executed)

section History
variable {ε β : Type}

/-- The last value that a function finds in a history. -/
def latest (f : ε → Option β) (history : List ε) : Option β := history.reverse.findSome? f

theorem latest_concat (f : ε → Option β) (history : List ε) (e : ε) :
    latest f (history ++ [e]) = (f e).or (latest f history) := by
  simp only [latest, List.reverse_append, List.reverse_singleton, List.singleton_append,
    List.findSome?_cons]
  cases f e with
  | none => rfl
  | some b => rfl

/-- Every entry is related to the history before it. -/
def Recorded (related : List ε → ε → Prop) (history : List ε) : Prop :=
  ∀ k e, history[k]? = some e → related (history.take k) e

theorem Recorded.concat {related : List ε → ε → Prop} {history : List ε} {e : ε}
    (recorded : Recorded related history) (last : related history e) :
    Recorded related (history ++ [e]) := by
  intro k e' here
  rcases Nat.lt_or_ge k history.length with below | above
  · rw [List.getElem?_append_left below] at here
    rw [List.take_append_of_le_length (Nat.le_of_lt below)]
    exact recorded k e' here
  · have inside := (List.getElem?_eq_some_iff.mp here).1
    have same : k = history.length := by
      simp only [List.length_append, List.length_singleton] at inside
      omega
    subst same
    rw [List.getElem?_append_right (Nat.le_refl _), Nat.sub_self] at here
    cases here
    rw [List.take_left']
    · exact last
    · rfl

theorem Recorded.nil (related : List ε → ε → Prop) : Recorded related [] := by
  intro k e here
  cases here

end History

end TeepDevice.Transition
