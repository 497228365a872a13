import Mathlib.Logic.Relation
import TeepDevice.Rendezvous

/-! What any scheduler makes of a caller and a server that share a slot is what
the sequential machine does. Nothing here names a program. -/
namespace TeepDevice.Rendezvous
open Transition

variable {κ σ ω γ ρ : Type}

section Abstraction
variable (caller : Caller κ γ ρ) (server : Server σ ω γ)

/-- A filled slot as the server sees it, started on or not. -/
def serving (k : κ) (c : γ) : ServerPhase σ ω → Sequential κ σ ω γ ρ
  | .working w => .busy k w c
  | .checking s => .busy k (server.start s c) c
  | .asleep s => .busy k (server.start s c) c
  | .notifying (some s) => .busy k (server.start s c) c
  | .notifying none => .lost k
  | .stopped => .lost k

/-- What the sequential machine would have done by now. -/
def System.sequential (t : System κ σ ω γ ρ) : Sequential κ σ ω γ ρ :=
  match t.caller with
  | .finished result => .done result t.server.ready
  | .calling => .idle t.k t.server.ready
  | _ =>
    if t.full then serving server t.k t.slot t.server
    else .idle (caller.take t.k t.slot) t.server.ready

end Abstraction

/-- How far a thread is from its next sleep or call. -/
def CallerPhase.weight : CallerPhase ρ → Nat
  | .notifying => 3
  | .checking => 1
  | .calling | .asleep | .finished _ => 0

def ServerPhase.weight : ServerPhase σ ω → Nat
  | .notifying _ => 3
  | .checking _ => 1
  | .asleep _ | .working _ | .stopped => 0

def System.weight (t : System κ σ ω γ ρ) : Nat := t.caller.weight + t.server.weight

theorem CallerPhase.weight_notified (phase : CallerPhase ρ) :
    phase.notified.weight ≤ phase.weight + 1 := by
  cases phase with
  | calling => exact Nat.zero_le _
  | notifying => exact Nat.le_succ _
  | checking => exact Nat.le_succ _
  | asleep => exact Nat.le_refl _
  | finished result => exact Nat.zero_le _

theorem ServerPhase.weight_notified (phase : ServerPhase σ ω) :
    phase.notified.weight ≤ phase.weight + 1 := by
  cases phase with
  | checking s => exact Nat.le_succ _
  | asleep s => exact Nat.le_refl _
  | working w => exact Nat.zero_le _
  | notifying s => exact Nat.le_succ _
  | stopped => exact Nat.zero_le _

section Turns
variable {caller : Caller κ γ ρ} {server : Server σ ω γ} {t u : System κ σ ω γ ρ} {turn : Turn}

/-- A turn of one of the two threads, not a spurious wake-up. -/
def Turn.own : Turn → Bool
  | .caller | .server => true
  | .wakeCaller | .wakeServer => false

theorem serving_notified (k : κ) (c : γ) (phase : ServerPhase σ ω) :
    serving server k c phase.notified = (serving server k c phase : Sequential κ σ ω γ ρ) := by
  cases phase with
  | checking s => rfl
  | asleep s => rfl
  | working w => rfl
  | notifying s => rfl
  | stopped => rfl

theorem sequential_waiting {k : κ} {phase : CallerPhase ρ} {srv : ServerPhase σ ω} {c : γ}
    {full : Bool} (waiting : phase.waiting) :
    System.sequential caller server ⟨k, phase, srv, c, full⟩ =
      if full then serving server k c srv else .idle (caller.take k c) srv.ready := by
  cases phase with
  | calling => cases waiting
  | notifying => rfl
  | checking => rfl
  | asleep => rfl
  | finished result => cases waiting

variable (caller server) in
/-- A turn is a step of the sequential machine, or brings its thread nearer to a
sleep, or is a spurious wake-up. -/
inductive Follows (t : System κ σ ω γ ρ) (turn : Turn) (u : System κ σ ω γ ρ) : Prop where
  | stays (own : turn.own = true)
    (same : u.sequential caller server = t.sequential caller server)
    (lighter : u.weight < t.weight)
  | steps (own : turn.own = true)
    (stepped : (t.sequential caller server).step caller server =
      some (u.sequential caller server))
    (bounded : u.weight ≤ t.weight + 3)
  | woken (spurious : turn.own = false)
    (same : u.sequential caller server = t.sequential caller server)
    (heavier : u.weight = t.weight + 1)

theorem follows_call (sound : t.Sound) (calling : t.caller = .calling) :
    Follows caller server t .caller (t.call caller) := by
  have empty : ¬ t.full := sound.empty (by rw [calling]; rfl)
  have free : ∀ w, t.server ≠ .working w := fun w working => empty (sound.owned w working)
  apply Follows.steps rfl
  · unfold System.call System.sequential
    cases out : caller.next t.k with
    | inr result => simp only [calling, Sequential.step, out]
    | inl c =>
      simp only [calling, Sequential.step, out]
      cases phase : t.server with
      | checking s => rfl
      | asleep s => rfl
      | working w => exact absurd phase (free w)
      | notifying s =>
        cases s with
        | none => rfl
        | some s => rfl
      | stopped => rfl
  · unfold System.call System.weight
    rw [calling]
    split
    · exact Nat.le_add_right _ _
    · simp only [CallerPhase.weight]
      omega

theorem follows_callerTurn (sound : t.Sound) (h : t.step caller server .caller = some u) :
    Follows caller server t .caller u := by
  cases phase : t.caller with
  | calling =>
    simp only [System.step, phase] at h
    cases h
    exact follows_call sound phase
  | notifying =>
    have woken := t.server.weight_notified
    simp only [System.step, phase] at h
    cases h
    apply Follows.stays rfl
    · simp only [System.sequential, phase, serving_notified, ServerPhase.ready_notified]
    · simp only [System.weight, phase, CallerPhase.weight]
      omega
  | checking =>
    simp only [System.step, phase] at h
    split at h
    · cases h
      apply Follows.stays rfl
      · simp only [System.sequential, phase]
      · simp only [System.weight, phase, CallerPhase.weight]
        omega
    · rename_i empty
      cases h
      apply Follows.stays rfl
      · simp only [System.sequential, phase, if_neg empty]
      · simp only [System.weight, phase, CallerPhase.weight]
        omega
  | asleep =>
    simp only [System.step, phase] at h
    cases h
  | finished result =>
    simp only [System.step, phase] at h
    cases h

theorem follows_work (sound : t.Sound) {w : ω} (phase : t.server = .working w)
    (h : t.step caller server .server = some u) : Follows caller server t .server u := by
  obtain ⟨k, cphase, srv, slot, full⟩ := t
  cases phase
  have filled : full = true := sound.owned w rfl
  have waiting : cphase.waiting := sound.inCall filled
  subst filled
  simp only [System.step] at h
  cases worked : server.work w slot with
  | none =>
    simp only [worked] at h
    cases h
  | some pass =>
    cases pass with
    | inl on =>
      simp only [worked] at h
      cases h
      apply Follows.steps rfl
      · rw [sequential_waiting waiting, sequential_waiting waiting]
        simp only [serving, Sequential.step, worked, if_pos]
      · simp only [System.weight, ServerPhase.weight]
        omega
    | inr answer =>
      simp only [worked] at h
      cases h
      apply Follows.steps rfl
      · rw [sequential_waiting waiting, sequential_waiting waiting]
        simp only [serving, Sequential.step, worked, if_pos, ServerPhase.ready]
        rfl
      · simp only [System.weight, ServerPhase.weight]
        omega

/-- Where the server is matters to the sequential machine only through its state
between two calls and what it makes of a filled slot. -/
theorem sequential_server {k : κ} {phase : CallerPhase ρ} {srv srv' : ServerPhase σ ω} {c : γ}
    {full : Bool} (ready : srv'.ready = srv.ready)
    (served : serving server k c srv' = (serving server k c srv : Sequential κ σ ω γ ρ)) :
    System.sequential caller server ⟨k, phase, srv', c, full⟩ =
      System.sequential caller server ⟨k, phase, srv, c, full⟩ := by
  unfold System.sequential
  cases phase with
  | calling => simp only [ready]
  | notifying => simp only [ready, served]
  | checking => simp only [ready, served]
  | asleep => simp only [ready, served]
  | finished result => simp only [ready]

theorem sequential_notified {k : κ} {phase : CallerPhase ρ} {srv : ServerPhase σ ω} {c : γ}
    {full : Bool} : System.sequential caller server ⟨k, phase.notified, srv, c, full⟩ =
      System.sequential caller server ⟨k, phase, srv, c, full⟩ := by
  cases phase with
  | calling => rfl
  | notifying => rfl
  | checking => rfl
  | asleep => rfl
  | finished result => rfl

theorem follows_serverTurn (sound : t.Sound) (h : t.step caller server .server = some u) :
    Follows caller server t .server u := by
  cases phase : t.server with
  | working w => exact follows_work sound phase h
  | checking s =>
    obtain ⟨k, cphase, srv, slot, full⟩ := t
    cases phase
    simp only [System.step] at h
    cases full with
    | true =>
      have waiting : cphase.waiting := sound.inCall rfl
      cases h
      apply Follows.stays rfl
      · rw [sequential_waiting waiting, sequential_waiting waiting]
        rfl
      · exact Nat.lt_succ_self _
    | false =>
      cases h
      apply Follows.stays rfl
      · exact sequential_server rfl rfl
      · exact Nat.lt_succ_self _
  | asleep s =>
    simp only [System.step, phase] at h
    cases h
  | notifying s =>
    obtain ⟨k, cphase, srv, slot, full⟩ := t
    have woken := cphase.weight_notified
    cases phase
    cases s with
    | some s =>
      cases h
      apply Follows.stays rfl
      · exact (sequential_notified).trans (sequential_server rfl rfl)
      · simp only [System.weight, ServerPhase.weight]
        omega
    | none =>
      cases h
      apply Follows.stays rfl
      · exact (sequential_notified).trans (sequential_server rfl rfl)
      · simp only [System.weight, ServerPhase.weight]
        omega
  | stopped =>
    simp only [System.step, phase] at h
    cases h

theorem follows_wake (wake : turn.own = false) (h : t.step caller server turn = some u) :
    Follows caller server t turn u := by
  cases turn with
  | caller => cases wake
  | server => cases wake
  | wakeCaller =>
    cases phase : t.caller with
    | asleep =>
      simp only [System.step, phase] at h
      cases h
      apply Follows.woken rfl
      · simp only [System.sequential, phase]
      · simp only [System.weight, phase, CallerPhase.weight]
        omega
    | calling | notifying | checking | finished _ =>
      simp only [System.step, phase] at h
      cases h
  | wakeServer =>
    cases phase : t.server with
    | asleep s =>
      obtain ⟨k, cphase, srv, slot, full⟩ := t
      cases phase
      cases h
      apply Follows.woken rfl
      · exact sequential_server rfl rfl
      · exact rfl
    | checking _ | working _ | notifying _ | stopped =>
      simp only [System.step, phase] at h
      cases h

theorem System.Sound.follows (sound : t.Sound) (h : Step caller server t turn u) :
    Follows caller server t turn u := by
  cases turn with
  | caller => exact follows_callerTurn sound h
  | server => exact follows_serverTurn sound h
  | wakeCaller => exact follows_wake rfl h
  | wakeServer => exact follows_wake rfl h

/-- As long as the sequential machine can go on, so can one of the two threads
without being woken by chance. -/
theorem System.Sound.enabled (sound : t.Sound)
    (goes : (t.sequential caller server).step caller server ≠ none) :
    ∃ turn, turn.own = true ∧ t.step caller server turn ≠ none := by
  by_cases callerGoes : t.step caller server .caller ≠ none
  · exact ⟨.caller, rfl, callerGoes⟩
  · refine ⟨.server, rfl, fun stuck => ?_⟩
    obtain ⟨k, cphase, srv, slot, full⟩ := t
    cases cphase with
    | calling => exact callerGoes (Option.some_ne_none _)
    | notifying => exact callerGoes (Option.some_ne_none _)
    | checking =>
      apply callerGoes
      simp only [System.step]
      split
      · exact Option.some_ne_none _
      · exact Option.some_ne_none _
    | finished result => exact goes rfl
    | asleep =>
      cases srv with
      | checking s =>
        simp only [System.step] at stuck
        split at stuck
        · cases stuck
        · cases stuck
      | asleep s =>
        cases full with
        | true =>
          have awake := sound.serverWoken s rfl rfl
          cases awake
        | false =>
          obtain ⟨s', notifying⟩ := sound.callerWoken rfl Bool.false_ne_true
          cases notifying
      | working w =>
        have filled : full = true := sound.owned w rfl
        subst filled
        apply goes
        simp only [System.step] at stuck
        cases worked : server.work w slot with
        | none => simp only [System.sequential, serving, Sequential.step, worked, if_pos]
        | some pass =>
          simp only [worked] at stuck
          cases pass with
          | inl on => cases stuck
          | inr answer => cases stuck
      | notifying s =>
        cases s with
        | some s => cases stuck
        | none => cases stuck
      | stopped =>
        cases full with
        | true => exact goes rfl
        | false =>
          obtain ⟨s', notifying⟩ := sound.callerWoken rfl Bool.false_ne_true
          cases notifying

theorem serving_ne_done (k : κ) (c : γ) (phase : ServerPhase σ ω) (result : ρ)
    (ready : Option σ) : serving server k c phase ≠ .done result ready := by
  intro h
  cases phase with
  | checking s => cases h
  | asleep s => cases h
  | working w => cases h
  | notifying s =>
    cases s with
    | none => cases h
    | some s => cases h
  | stopped => cases h

/-- Where the sequential machine has ended without a server, the server has stopped. -/
theorem System.Sound.ended (sound : t.Sound) {result : ρ}
    (last : t.sequential caller server = .done result none)
    (stuck : t.step caller server .server = none) :
    t.caller = .finished result ∧ t.server = .stopped := by
  obtain ⟨k, phase, srv, slot, full⟩ := t
  have waits (waiting : phase.waiting) : False := by
    rw [sequential_waiting waiting] at last
    split at last
    · exact serving_ne_done k slot srv result none last
    · cases last
  cases phase with
  | finished result' =>
    cases srv with
    | stopped =>
      cases last
      exact ⟨rfl, rfl⟩
    | working w => cases sound.inCall (sound.owned w rfl)
    | checking s => cases last
    | asleep s => cases last
    | notifying s =>
      cases s with
      | none => cases stuck
      | some s => cases last
  | calling => cases last
  | notifying => exact (waits rfl).elim
  | checking => exact (waits rfl).elim
  | asleep => exact (waits rfl).elim

end Turns

section Runs
variable {caller : Caller κ γ ρ} {server : Server σ ω γ}

theorem Sequential.after_add (n m : Nat) (q : Sequential κ σ ω γ ρ) :
    q.after caller server (n + m) = (q.after caller server n).bind (·.after caller server m) := by
  induction n generalizing q with
  | zero =>
    rw [Nat.zero_add]
    rfl
  | succ n ih =>
    rw [Nat.add_right_comm]
    simp only [Sequential.after]
    cases q.step caller server with
    | none => rfl
    | some q' => exact ih q'

theorem Sequential.after_trans {n m : Nat} {q r z : Sequential κ σ ω γ ρ}
    (first : q.after caller server n = some r) (rest : r.after caller server m = some z) :
    q.after caller server (n + m) = some z := by
  rw [Sequential.after_add, first]
  exact rest

theorem Sequential.after_one {q r : Sequential κ σ ω γ ρ} (h : q.step caller server = some r) :
    q.after caller server 1 = some r := by
  simp only [Sequential.after, h, Option.bind_some]

/-- A machine that has stopped was not ahead of any run of it. -/
theorem Sequential.after_le {n m : Nat} {q r last : Sequential κ σ ω γ ρ}
    (stops : q.after caller server m = some last) (stuck : last.step caller server = none)
    (h : q.after caller server n = some r) : n ≤ m := by
  apply Nat.le_of_not_lt
  intro above
  obtain ⟨d, rfl⟩ := Nat.exists_eq_add_of_lt above
  rw [Nat.add_assoc, Sequential.after_add, stops, Nat.add_comm d 1, Option.bind_some,
    Sequential.after_add] at h
  simp only [Sequential.after, stuck, Option.bind_none] at h
  cases h

theorem Sequential.after_unique {n m : Nat} {q r last : Sequential κ σ ω γ ρ}
    (stops : q.after caller server m = some last) (stuck : last.step caller server = none)
    (h : q.after caller server n = some r) (stuck' : r.step caller server = none) : r = last := by
  have le := Sequential.after_le stops stuck h
  have ge := Sequential.after_le h stuck' stops
  cases Nat.le_antisymm le ge
  exact Option.some.inj (h.symm.trans stops)

/-- Passes of the server that do not answer. -/
def Server.Passes (server : Server σ ω γ) : ω × γ → ω × γ → Prop :=
  Relation.ReflTransGen fun a b => server.work a.1 a.2 = some (.inl b)

theorem after_passes (caller : Caller κ γ ρ) {a b : ω × γ} (k : κ) (passes : server.Passes a b) :
    ∃ n, (Sequential.busy k a.1 a.2 : Sequential κ σ ω γ ρ).after caller server n =
      some (.busy k b.1 b.2) := by
  induction passes with
  | refl => exact ⟨0, rfl⟩
  | tail _ pass ih =>
    obtain ⟨n, reached⟩ := ih
    refine ⟨n + 1, Sequential.after_trans reached (Sequential.after_one ?_)⟩
    simp only [Sequential.step, pass]

/-- A call that the server answers, from the caller's side. -/
theorem after_call {k : κ} {s : σ} {c c' : γ} {b : ω × γ} {s' : Option σ}
    (calls : caller.next k = .inl c) (passes : server.Passes (server.start s c, c) b)
    (answers : server.work b.1 b.2 = some (.inr (s', c'))) :
    ∃ n, (Sequential.idle k (some s)).after caller server n =
      some (.idle (caller.take k c') s') := by
  obtain ⟨n, worked⟩ := after_passes caller k passes
  refine ⟨1 + n + 1, Sequential.after_trans (Sequential.after_trans
    (Sequential.after_one ?_) worked) (Sequential.after_one ?_)⟩
  · simp only [Sequential.step, calls]
  · simp only [Sequential.step, answers]

/-- The server works on what the caller calls with. -/
def Sequential.Called (caller : Caller κ γ ρ) (server : Server σ ω γ) :
    Sequential κ σ ω γ ρ → Prop
  | .busy k w c => ∃ c₀ s, caller.next k = .inl c₀ ∧ server.Passes (server.start s c₀, c₀) (w, c)
  | .idle _ _ => True
  | .lost _ => True
  | .done _ _ => True

theorem Sequential.Called.step {q r : Sequential κ σ ω γ ρ} (called : q.Called caller server)
    (h : q.step caller server = some r) : r.Called caller server := by
  cases q with
  | idle k s =>
    cases out : caller.next k with
    | inr result =>
      simp only [Sequential.step, out, Option.some.injEq] at h
      cases h
      trivial
    | inl c =>
      cases s with
      | none =>
        simp only [Sequential.step, out, Option.some.injEq] at h
        cases h
        trivial
      | some s =>
        simp only [Sequential.step, out, Option.some.injEq] at h
        cases h
        exact ⟨c, s, out, .refl⟩
  | busy k w c =>
    obtain ⟨c₀, s, next, passes⟩ := called
    cases pass : server.work w c with
    | none =>
      simp only [Sequential.step, pass] at h
      cases h
    | some outcome =>
      cases outcome with
      | inl later =>
        simp only [Sequential.step, pass, Option.some.injEq] at h
        cases h
        exact ⟨c₀, s, next, passes.tail pass⟩
      | inr answer =>
        simp only [Sequential.step, pass, Option.some.injEq] at h
        cases h
        trivial
  | lost k => cases h
  | done result s => cases h

theorem Sequential.Called.after {n : Nat} {q r : Sequential κ σ ω γ ρ}
    (called : q.Called caller server) (h : q.after caller server n = some r) :
    r.Called caller server := by
  induction n generalizing q with
  | zero =>
    cases h
    exact called
  | succ n ih =>
    obtain ⟨m, step, rest⟩ := Option.bind_eq_some_iff.mp h
    exact ih (called.step step) rest

theorem run_sound {t u : System κ σ ω γ ρ} {turns : List Turn} (sound : t.Sound)
    (run : Run (Step caller server) t turns u) : u.Sound :=
  run.invariant System.Sound (fun _ _ _ sound step => sound.step step) sound

/-- Every run is a run of the sequential machine, and its length is that of the
sequential run up to a factor and the wake-ups by chance. -/
theorem run_follows {t u : System κ σ ω γ ρ} {turns : List Turn} (sound : t.Sound)
    (run : Run (Step caller server) t turns u) :
    ∃ n, (t.sequential caller server).after caller server n = some (u.sequential caller server) ∧
      turns.countP Turn.own + u.weight ≤
        t.weight + 4 * n + turns.countP (fun turn => !turn.own) := by
  induction run with
  | nil =>
    refine ⟨0, rfl, ?_⟩
    simp only [List.countP_nil, Nat.mul_zero, Nat.add_zero, Nat.zero_add, Nat.le_refl]
  | @snoc v u labels turn before last ih =>
    obtain ⟨n, reached, short⟩ := ih
    simp only [List.countP_append, List.countP_singleton]
    cases (run_sound sound before).follows last with
    | stays own same lighter =>
      refine ⟨n, same ▸ reached, ?_⟩
      simp only [own, if_true, Bool.not_true, Bool.false_eq_true, if_false]
      omega
    | steps own stepped bounded =>
      refine ⟨n + 1, Sequential.after_trans reached (Sequential.after_one stepped), ?_⟩
      simp only [own, if_true, Bool.not_true, Bool.false_eq_true, if_false]
      omega
    | woken spurious same heavier =>
      refine ⟨n, same ▸ reached, ?_⟩
      simp only [spurious, if_true, Bool.not_false, Bool.false_eq_true, if_false]
      omega

variable {k : κ} {s : σ} {garbage : γ} {turns : List Turn} {t : System κ σ ω γ ρ}

/-- Whatever the scheduler does, the system is where the sequential machine comes to. -/
theorem run_linearizes (run : Run (Step caller server) (.start k s garbage) turns t) :
    ∃ n, (Sequential.idle k (some s)).after caller server n =
      some (t.sequential caller server) := by
  obtain ⟨n, reached, _⟩ := run_follows (System.Sound.start k s garbage) run
  exact ⟨n, reached⟩

/-- No deadlock and no lost wake-up. -/
theorem run_enabled (run : Run (Step caller server) (.start k s garbage) turns t)
    (goes : (t.sequential caller server).step caller server ≠ none) :
    ∃ turn, turn.own = true ∧ t.step caller server turn ≠ none :=
  (run_sound (System.Sound.start k s garbage) run).enabled goes

section Stops
variable {n : Nat} {last : Sequential κ σ ω γ ρ}
  (stops : (Sequential.idle k (some s)).after caller server n = some last)
  (stuck : last.step caller server = none)
include stops stuck

/-- If the sequential machine stops, no scheduler keeps the two threads running. -/
theorem run_bounded (run : Run (Step caller server) (.start k s garbage) turns t) :
    turns.countP Turn.own ≤ 1 + 4 * n + turns.countP (fun turn => !turn.own) := by
  obtain ⟨m, reached, short⟩ := run_follows (System.Sound.start k s garbage) run
  have le := Sequential.after_le stops stuck reached
  have initial : (System.start k s garbage : System κ σ ω γ ρ).weight = 1 := rfl
  omega

/-- A run that cannot go on has come to the end of the sequential one. -/
theorem run_completes (run : Run (Step caller server) (.start k s garbage) turns t)
    (halted : ∀ turn, turn.own = true → t.step caller server turn = none) :
    t.sequential caller server = last := by
  obtain ⟨m, reached⟩ := run_linearizes run
  apply Sequential.after_unique stops stuck reached
  apply Classical.byContradiction
  intro goes
  obtain ⟨turn, own, enabled⟩ := run_enabled run goes
  exact enabled (halted turn own)

end Stops

/-- The server has hold of the slot only while the caller waits, and what it works on
is what the caller has put there. -/
theorem run_serving (run : Run (Step caller server) (.start k s garbage) turns t) {w : ω}
    (working : t.server = .working w) :
    t.caller.waiting ∧ ∃ c s, caller.next t.k = .inl c ∧
      server.Passes (server.start s c, c) (w, t.slot) := by
  have sound := run_sound (System.Sound.start k s garbage) run
  have full := sound.owned w working
  have waiting := sound.inCall full
  obtain ⟨n, reached⟩ := run_linearizes run
  obtain ⟨k', phase, srv, slot, filled⟩ := t
  cases working
  cases full
  rw [sequential_waiting waiting] at reached
  have initial : (Sequential.idle k (some s)).Called caller server := trivial
  exact ⟨waiting, initial.after reached⟩

end Runs

end TeepDevice.Rendezvous
