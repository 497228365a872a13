import TeepDevice.Transition

/-! A caller and a server that share one slot under a lock with a condition
variable: the caller fills the slot and sleeps until it is emptied, the server
sleeps until it is filled. Under every scheduler, with late notifications and
spurious wake-ups, the two do what they do one after the other. Nothing here
names a program. -/
namespace TeepDevice.Rendezvous
open Transition

/-- What the caller puts into the slot next, or its result, and how it goes on
with an answer. -/
structure Caller (κ γ ρ : Type) where
  next : κ → γ ⊕ ρ
  take : κ → γ → κ

/-- The server works on a filled slot pass by pass. The last pass leaves the
answer in the slot and the server ready or, with `none`, stopped; a pass without
a value is a crash. -/
structure Server (σ ω γ : Type) where
  start : σ → γ → ω
  work : ω → γ → Option ((ω × γ) ⊕ (Option σ × γ))

/-- The two in sequence: between calls, in a call, waiting for a server that has
stopped, or left with a result. -/
inductive Sequential (κ σ ω γ ρ : Type) where
  | idle (k : κ) (server : Option σ)
  | busy (k : κ) (w : ω) (c : γ)
  | lost (k : κ)
  | done (result : ρ) (server : Option σ)
  deriving DecidableEq

inductive CallerPhase (ρ : Type) where
  | calling | notifying | checking | asleep
  | finished (result : ρ)
  deriving DecidableEq

inductive ServerPhase (σ ω : Type) where
  | checking (s : σ)
  | asleep (s : σ)
  | working (w : ω)
  | notifying (s : Option σ)
  | stopped
  deriving DecidableEq

/-- The shared slot with its flag, and where the two threads are. -/
structure System (κ σ ω γ ρ : Type) where
  k : κ
  caller : CallerPhase ρ
  server : ServerPhase σ ω
  slot : γ
  full : Bool
  deriving DecidableEq

/-- Who runs next. The last two are wake-ups without a notification. -/
inductive Turn where
  | caller | server | wakeCaller | wakeServer
  deriving DecidableEq, Repr

variable {κ σ ω γ ρ : Type}

def CallerPhase.notified : CallerPhase ρ → CallerPhase ρ
  | .asleep => .checking
  | phase => phase

def ServerPhase.notified : ServerPhase σ ω → ServerPhase σ ω
  | .asleep s => .checking s
  | phase => phase

/-- The server's own state, where it has one between two calls. -/
def ServerPhase.ready : ServerPhase σ ω → Option σ
  | .checking s => some s
  | .asleep s => some s
  | .notifying s => s
  | .working _ => none
  | .stopped => none

section Machines
variable (caller : Caller κ γ ρ) (server : Server σ ω γ)

def Sequential.step : Sequential κ σ ω γ ρ → Option (Sequential κ σ ω γ ρ)
  | .idle k s =>
    match caller.next k with
    | .inr result => some (.done result s)
    | .inl c =>
      match s with
      | none => some (.lost k)
      | some s => some (.busy k (server.start s c) c)
  | .busy k w c =>
    match server.work w c with
    | none => none
    | some (.inl (w, c)) => some (.busy k w c)
    | some (.inr (s, c)) => some (.idle (caller.take k c) s)
  | .lost _ => none
  | .done _ _ => none

/-- The sequential machine after a number of steps. -/
def Sequential.after : Nat → Sequential κ σ ω γ ρ → Option (Sequential κ σ ω γ ρ)
  | 0, q => some q
  | n + 1, q => (Sequential.step caller server q).bind (Sequential.after n)

/-- Filling the slot, or leaving with a result. -/
def System.call (t : System κ σ ω γ ρ) : System κ σ ω γ ρ :=
  match caller.next t.k with
  | .inr result => { t with caller := .finished result }
  | .inl c => { t with caller := .notifying, slot := c, full := true }

def System.step (t : System κ σ ω γ ρ) : Turn → Option (System κ σ ω γ ρ)
  | .caller =>
    match t.caller with
    | .calling => some (t.call caller)
    | .notifying => some { t with caller := .checking, server := t.server.notified }
    | .checking =>
      if t.full then some { t with caller := .asleep }
      else some { t with k := caller.take t.k t.slot, caller := .calling }
    | .asleep => none
    | .finished _ => none
  | .server =>
    match t.server with
    | .checking s =>
      if t.full then some { t with server := .working (server.start s t.slot) }
      else some { t with server := .asleep s }
    | .asleep _ => none
    | .working w =>
      match server.work w t.slot with
      | none => none
      | some (.inl (w, c)) => some { t with server := .working w, slot := c }
      | some (.inr (s, c)) => some { t with server := .notifying s, slot := c, full := false }
    | .notifying (some s) => some { t with caller := t.caller.notified, server := .checking s }
    | .notifying none => some { t with caller := t.caller.notified, server := .stopped }
    | .stopped => none
  | .wakeCaller =>
    match t.caller with
    | .asleep => some { t with caller := .checking }
    | _ => none
  | .wakeServer =>
    match t.server with
    | .asleep s => some { t with server := .checking s }
    | _ => none

/-- Both threads at their heads and the slot empty, whatever it holds. -/
def System.start (k : κ) (s : σ) (garbage : γ) : System κ σ ω γ ρ :=
  ⟨k, .calling, .checking s, garbage, false⟩

/-- One turn of the concurrent system. -/
def Step (t : System κ σ ω γ ρ) (turn : Turn) (u : System κ σ ω γ ρ) : Prop :=
  t.step caller server turn = some u

end Machines

/-- The caller waits for an answer. -/
def CallerPhase.waiting : CallerPhase ρ → Bool
  | .notifying | .checking | .asleep => true
  | .calling | .finished _ => false

/-- Whoever sleeps although its turn has come is about to be notified, and the
slot is full only in a call. -/
structure System.Sound (t : System κ σ ω γ ρ) : Prop where
  inCall : t.full → t.caller.waiting
  owned : ∀ w, t.server = .working w → t.full
  callerWoken : t.caller = .asleep → ¬ t.full → ∃ s, t.server = .notifying s
  serverWoken : ∀ s, t.server = .asleep s → t.full → t.caller = .notifying

@[simp] theorem ServerPhase.ready_notified (phase : ServerPhase σ ω) :
    phase.notified.ready = phase.ready := by
  cases phase with
  | checking s => rfl
  | asleep s => rfl
  | working w => rfl
  | notifying s => rfl
  | stopped => rfl

@[simp] theorem CallerPhase.waiting_notified (phase : CallerPhase ρ) :
    phase.notified.waiting = phase.waiting := by
  cases phase with
  | calling => rfl
  | notifying => rfl
  | checking => rfl
  | asleep => rfl
  | finished result => rfl

theorem ServerPhase.notified_working (phase : ServerPhase σ ω) (w : ω) :
    phase.notified = .working w ↔ phase = .working w := by
  cases phase with
  | working w' => exact Iff.rfl
  | checking s => exact Iff.rfl
  | asleep s => simp only [ServerPhase.notified, reduceCtorEq]
  | notifying s => exact Iff.rfl
  | stopped => exact Iff.rfl

theorem ServerPhase.notified_ne_asleep (phase : ServerPhase σ ω) (s : σ) :
    phase.notified ≠ .asleep s := by
  intro h
  cases phase with
  | working w => cases h
  | checking s => cases h
  | asleep s => cases h
  | notifying s => cases h
  | stopped => cases h

theorem CallerPhase.notified_ne_asleep (phase : CallerPhase ρ) : phase.notified ≠ .asleep := by
  intro h
  cases phase with
  | calling => cases h
  | notifying => cases h
  | checking => cases h
  | asleep => cases h
  | finished result => cases h

section Turns
variable {caller : Caller κ γ ρ} {server : Server σ ω γ} {t u : System κ σ ω γ ρ} {turn : Turn}

theorem System.Sound.start (k : κ) (s : σ) (garbage : γ) :
    (System.start k s garbage : System κ σ ω γ ρ).Sound where
  inCall full := by cases full
  owned _ working := by cases working
  callerWoken asleep := by cases asleep
  serverWoken _ asleep := by cases asleep

theorem System.Sound.empty (sound : t.Sound) (idle : t.caller.waiting = false) : ¬ t.full := by
  intro full
  have waiting := sound.inCall full
  rw [idle] at waiting
  cases waiting

theorem System.Sound.call (sound : t.Sound) (calling : t.caller = .calling) :
    (t.call caller).Sound := by
  have empty : ¬ t.full := sound.empty (by rw [calling]; rfl)
  unfold System.call
  cases caller.next t.k with
  | inr result =>
    constructor
    · exact fun full => absurd full empty
    · exact sound.owned
    · intro asleep
      cases asleep
    · exact fun _ _ full => absurd full empty
  | inl c =>
    constructor
    · exact fun _ => rfl
    · exact fun _ _ => rfl
    · intro asleep
      cases asleep
    · exact fun _ _ _ => rfl

theorem System.Sound.callerTurn (sound : t.Sound) (h : t.step caller server .caller = some u) :
    u.Sound := by
  simp only [System.step] at h
  cases phase : t.caller with
  | calling =>
    simp only [phase] at h
    cases h
    exact sound.call phase
  | notifying =>
    simp only [phase] at h
    cases h
    constructor
    · exact fun _ => rfl
    · exact fun w working => sound.owned w ((t.server.notified_working w).mp working)
    · intro asleep
      cases asleep
    · exact fun s asleep => absurd asleep (t.server.notified_ne_asleep s)
  | checking =>
    simp only [phase] at h
    split at h
    · rename_i full
      cases h
      constructor
      · exact fun _ => rfl
      · exact sound.owned
      · exact fun _ empty => absurd full empty
      · intro s asleep full
        have awake := sound.serverWoken s asleep full
        rw [phase] at awake
        cases awake
    · rename_i empty
      cases h
      constructor
      · exact fun full => absurd full empty
      · exact sound.owned
      · intro asleep
        cases asleep
      · exact fun _ _ full => absurd full empty
  | asleep =>
    simp only [phase] at h
    cases h
  | finished result =>
    simp only [phase] at h
    cases h

theorem System.Sound.serverTurn (sound : t.Sound) (h : t.step caller server .server = some u) :
    u.Sound := by
  simp only [System.step] at h
  cases phase : t.server with
  | checking s =>
    simp only [phase] at h
    split at h
    · rename_i full
      cases h
      constructor
      · exact sound.inCall
      · exact fun _ _ => full
      · exact fun _ empty => absurd full empty
      · intro s asleep
        cases asleep
    · rename_i empty
      cases h
      constructor
      · exact fun full => absurd full empty
      · intro w working
        cases working
      · intro asleep empty
        obtain ⟨s', notifying⟩ := sound.callerWoken asleep empty
        rw [phase] at notifying
        cases notifying
      · exact fun _ _ full => absurd full empty
  | asleep s =>
    simp only [phase] at h
    cases h
  | working w =>
    have full := sound.owned w phase
    simp only [phase] at h
    split at h
    · cases h
    · cases h
      constructor
      · exact sound.inCall
      · exact fun _ _ => full
      · exact fun _ empty => absurd full empty
      · intro s asleep
        cases asleep
    · rename_i s c worked
      cases h
      constructor
      · intro full
        cases full
      · intro w working
        cases working
      · exact fun _ _ => ⟨s, rfl⟩
      · intro s asleep
        cases asleep
  | notifying s =>
    cases s with
    | some s =>
      simp only [phase] at h
      cases h
      constructor
      · exact fun full => (t.caller.waiting_notified).trans (sound.inCall full)
      · intro w working
        cases working
      · exact fun asleep => absurd asleep t.caller.notified_ne_asleep
      · intro s asleep
        cases asleep
    | none =>
      simp only [phase] at h
      cases h
      constructor
      · exact fun full => (t.caller.waiting_notified).trans (sound.inCall full)
      · intro w working
        cases working
      · exact fun asleep => absurd asleep t.caller.notified_ne_asleep
      · intro s asleep
        cases asleep
  | stopped =>
    simp only [phase] at h
    cases h

theorem System.Sound.wakeTurn (sound : t.Sound) (wake : turn = .wakeCaller ∨ turn = .wakeServer)
    (h : t.step caller server turn = some u) : u.Sound := by
  rcases wake with rfl | rfl
  · simp only [System.step] at h
    split at h
    · rename_i phase
      cases h
      constructor
      · exact fun _ => rfl
      · exact sound.owned
      · intro asleep
        cases asleep
      · intro s asleep full
        have awake := sound.serverWoken s asleep full
        rw [phase] at awake
        cases awake
    · cases h
  · simp only [System.step] at h
    split at h
    · rename_i s phase
      cases h
      constructor
      · exact sound.inCall
      · intro w working
        cases working
      · intro asleep empty
        obtain ⟨s', notifying⟩ := sound.callerWoken asleep empty
        rw [phase] at notifying
        cases notifying
      · intro s asleep
        cases asleep
    · cases h

theorem System.Sound.step (sound : t.Sound) (h : Step caller server t turn u) : u.Sound := by
  cases turn with
  | caller => exact sound.callerTurn h
  | server => exact sound.serverTurn h
  | wakeCaller => exact sound.wakeTurn (.inl rfl) h
  | wakeServer => exact sound.wakeTurn (.inr rfl) h

end Turns

end TeepDevice.Rendezvous
