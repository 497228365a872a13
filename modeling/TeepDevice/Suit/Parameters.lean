import Mathlib.Data.List.Dedup
import Mathlib.Data.List.ReduceOption
import Mathlib.Data.List.Perm.Subperm
import TeepDevice.Suit.Outcome

/-! Parameters per component. The binder table is keyed by the address of a
handler's local variable; the store it stands for is keyed by the object. The
two agree as long as addresses and objects correspond to each other. -/
namespace TeepDevice.Suit
open Tcbor

section Binders
variable {bindings bindings' : List Binder} {target key : Nat} {value : Bytes}

theorem getParameter_cons (binder : Binder) (bindings : List Binder) (target key : Nat) :
    suitRunnerGetParameter (binder :: bindings) target key =
      if binder.target = target ∧ binder.key = key then some binder.valueCbor
      else suitRunnerGetParameter bindings target key := by
  unfold suitRunnerGetParameter lookupBinder
  rw [List.find?_cons]
  by_cases same : binder.target = target ∧ binder.key = key
  · simp [same]
  · rw [if_neg same]
    have differs : (binder.target == target && binder.key == key) = false := by
      simpa using same
    rw [differs]

theorem getParameter_append (binder : Binder) (t k : Nat)
    (absent : suitRunnerGetParameter bindings binder.target binder.key = none) :
    suitRunnerGetParameter (bindings ++ [binder]) t k =
      if binder.target = t ∧ binder.key = k then some binder.valueCbor
      else suitRunnerGetParameter bindings t k := by
  induction bindings with
  | nil => exact getParameter_cons binder [] t k
  | cons first rest ih =>
    rw [getParameter_cons] at absent
    rw [List.cons_append, getParameter_cons, getParameter_cons]
    by_cases here : first.target = binder.target ∧ first.key = binder.key
    · rw [if_pos here] at absent
      cases absent
    · rw [if_neg here] at absent
      rw [ih absent]
      by_cases named : first.target = t ∧ first.key = k
      · have other : ¬ (binder.target = t ∧ binder.key = k) := fun same =>
          here ⟨named.1.trans same.1.symm, named.2.trans same.2.symm⟩
        rw [if_pos named, if_pos named, if_neg other]
      · rw [if_neg named, if_neg named]

theorem getParameter_rebind (t k : Nat)
    (present : suitRunnerGetParameter bindings target key ≠ none) :
    suitRunnerGetParameter (rebind bindings target key value) t k =
      if target = t ∧ key = k then some value else suitRunnerGetParameter bindings t k := by
  induction bindings with
  | nil => exact absurd rfl present
  | cons first rest ih =>
    rw [getParameter_cons] at present
    unfold rebind
    by_cases here : first.target = target ∧ first.key = key
    · have found : (first.target == target && first.key == key) = true := by simpa using here
      rw [if_pos found, getParameter_cons, getParameter_cons]
      obtain ⟨rfl, rfl⟩ := here
      by_cases named : first.target = t ∧ first.key = k
      · rw [if_pos named, if_pos named]
      · rw [if_neg named, if_neg named, if_neg named]
    · have passed : ¬ (first.target == target && first.key == key) = true := by simpa using here
      rw [if_neg here] at present
      rw [if_neg passed, getParameter_cons, getParameter_cons, ih present]
      by_cases named : first.target = t ∧ first.key = k
      · have other : ¬ (target = t ∧ key = k) := fun same =>
          here ⟨named.1.trans same.1.symm, named.2.trans same.2.symm⟩
        rw [if_pos named, if_pos named, if_neg other]
      · rw [if_neg named, if_neg named]

/-- The pairs a table has binders for. -/
def binderKeys (bindings : List Binder) : List (Nat × Nat) :=
  bindings.map fun binder => (binder.target, binder.key)

theorem binderKeys_rebind (bindings : List Binder) (target key : Nat) (value : Bytes) :
    binderKeys (rebind bindings target key value) = binderKeys bindings := by
  induction bindings with
  | nil => rfl
  | cons first rest ih =>
    unfold rebind
    split
    · rfl
    · exact congrArg (List.cons _) ih

theorem getParameter_eq_none :
    suitRunnerGetParameter bindings target key = none ↔ (target, key) ∉ binderKeys bindings := by
  induction bindings with
  | nil => simp [suitRunnerGetParameter, lookupBinder, binderKeys]
  | cons first rest ih =>
    rw [getParameter_cons]
    by_cases here : first.target = target ∧ first.key = key
    · simp [here, binderKeys]
    · rw [if_neg here, ih]
      simp only [binderKeys, List.map_cons, List.mem_cons, not_or, Prod.mk.injEq]
      exact ⟨fun absent => ⟨fun same => here ⟨same.1.symm, same.2.symm⟩, absent⟩, And.right⟩

/-- One parameter write on a key of 32 bits: the pair it names gets the value if
it is new or overridden, every other pair keeps its own. -/
theorem setParameter_spec {override : Bool} (small : key < 2 ^ 32)
    (done : setParameter bindings target key value override = some bindings') (t k : Nat) :
    suitRunnerGetParameter bindings' t k =
        (if (target = t ∧ key = k) ∧
            (override = true ∨ suitRunnerGetParameter bindings target key = none) then some value
          else suitRunnerGetParameter bindings t k) ∧
      (binderKeys bindings' = binderKeys bindings ∨
        ((target, key) ∉ binderKeys bindings ∧
          binderKeys bindings' = binderKeys bindings ++ [(target, key)])) := by
  unfold setParameter at done
  cases found : lookupBinder bindings target key with
  | some binder =>
    have present : suitRunnerGetParameter bindings target key ≠ none := by
      simp [suitRunnerGetParameter, found]
    rw [found] at done
    cases Option.some.inj done
    cases override with
    | true => simp [getParameter_rebind t k present, binderKeys_rebind]
    | false => simp [present]
  | none =>
    have absent : suitRunnerGetParameter bindings target key = none := by
      simp [suitRunnerGetParameter, found]
    rw [found] at done
    dsimp only at done
    split at done
    · cases done
    · cases Option.some.inj done
      rw [Nat.mod_eq_of_lt small]
      refine ⟨?_, .inr ⟨(getParameter_eq_none).mp absent, ?_⟩⟩
      · rw [getParameter_append ⟨target, key, value⟩ t k absent]
        simp [absent]
      · simp [binderKeys]

theorem setParameter_full {override : Bool}
    (full : setParameter bindings target key value override = none) :
    (target, key) ∉ binderKeys bindings ∧ bindings.length = binderMax := by
  unfold setParameter at full
  split at full
  · cases full
  · rename_i found
    split at full
    · rename_i length
      exact ⟨(getParameter_eq_none).mp (by simp [suitRunnerGetParameter, found]), length⟩
    · cases full

end Binders

section Store

/-- Parameters as the manifest means them: a value for each object and key. -/
abbrev Parameters := Object → Nat → Option Bytes

def Parameters.set (store : Parameters) (override : Bool) (object : Object) (key : Nat)
    (value : Bytes) : Parameters :=
  fun o k =>
    if (object = o ∧ key = k) ∧ (override = true ∨ store object key = none) then some value
    else store o k

/-- The (key, value) pairs of a set-parameters command, up to the first that
cannot be read. -/
def parameterPairs (param : Bytes) : List (Nat × Bytes) :=
  match readMap (toplevel (some param)) with
  | (none, _) => []
  | (some map, _) => (items readCommand map).reduceOption

def Call.settings (call : Call) : List (Nat × Bytes) :=
  if call.command = Command.directiveSetParameters ∨
      call.command = Command.directiveOverrideParameters then parameterPairs call.param
  else []

def Call.overrides (call : Call) : Bool := call.command == Command.directiveOverrideParameters

def Parameters.apply (store : Parameters) (call : Call) : Parameters :=
  call.settings.foldl
    (fun store pair => store.set call.overrides call.object pair.1 pair.2) store

/-- The parameters after the given handler calls. -/
def parametersAfter (calls : List Call) : Parameters := calls.foldl Parameters.apply fun _ _ => none

/-- Every address has stood for one object and every object for one address. -/
def Addressed (calls : List Call) : Prop :=
  ∀ c ∈ calls, ∀ d ∈ calls, c.target = d.target ↔ c.object = d.object

instance (calls : List Call) : Decidable (Addressed calls) :=
  inferInstanceAs (Decidable (∀ c ∈ calls, ∀ d ∈ calls, c.target = d.target ↔ c.object = d.object))

/-- The pairs of address and key that were set. -/
def settingKeys (calls : List Call) : List (Nat × Nat) :=
  calls.flatMap fun call => call.settings.map fun pair => (call.target, pair.1)

/-- Parameter keys of 32 bits that fit the table. -/
def Storable (keys : List (Nat × Nat)) : Prop :=
  (∀ pair ∈ keys, pair.2 < 2 ^ 32) ∧ keys.dedup.length ≤ binderMax

instance (keys : List (Nat × Nat)) : Decidable (Storable keys) :=
  inferInstanceAs (Decidable ((∀ pair ∈ keys, pair.2 < 2 ^ 32) ∧ keys.dedup.length ≤ binderMax))

/-- The table agrees with the store on all objects that were named so far. -/
structure Agree (calls : List Call) (keys : List (Nat × Nat)) (bindings : List Binder)
    (store : Parameters) : Prop where
  named : ∀ call ∈ calls, ∀ key,
    suitRunnerGetParameter bindings call.target key = store call.object key
  unusedTarget : ∀ target, (∀ call ∈ calls, call.target ≠ target) →
    ∀ key, suitRunnerGetParameter bindings target key = none
  unusedObject : ∀ object, (∀ call ∈ calls, call.object ≠ object) → ∀ key, store object key = none
  nodup : (binderKeys bindings).Nodup
  known : ∀ pair ∈ binderKeys bindings, pair ∈ keys

variable {calls : List Call} {keys : List (Nat × Nat)} {bindings : List Binder}
  {store : Parameters}

/-- A table of distinct known keys is not full while a known key is missing. -/
theorem setParameter_fits (agree : Agree calls keys bindings store) (storable : Storable keys)
    {target key : Nat} (member : (target, key) ∈ keys) (value : Bytes) (override : Bool) :
    ∃ after, setParameter bindings target key value override = some after := by
  cases done : setParameter bindings target key value override with
  | some after => exact ⟨after, rfl⟩
  | none =>
    obtain ⟨absent, full⟩ := setParameter_full done
    have distinct : ((target, key) :: binderKeys bindings).Nodup :=
      List.nodup_cons.mpr ⟨absent, agree.nodup⟩
    have inside : (target, key) :: binderKeys bindings ⊆ keys.dedup := by
      intro pair here
      rcases List.mem_cons.mp here with rfl | here
      · exact List.mem_dedup.mpr member
      · exact List.mem_dedup.mpr (agree.known pair here)
    have most := (List.subperm_of_subset distinct inside).length_le
    simp only [List.length_cons, binderKeys, List.length_map, full] at most
    have bound := storable.2
    omega

/-- One pair of a set-parameters command, on both sides. -/
theorem setParameter_agree (agree : Agree calls keys bindings store) (storable : Storable keys)
    (addressed : Addressed calls) {call : Call} (here : call ∈ calls) {key : Nat}
    (member : (call.target, key) ∈ keys) (value : Bytes) (override : Bool) :
    ∃ after, setParameter bindings call.target key value override = some after ∧
      Agree calls keys after (store.set override call.object key value) := by
  obtain ⟨after, done⟩ := setParameter_fits agree storable member value override
  have spec := setParameter_spec (storable.1 _ member) done
  refine ⟨after, done, ?_, ?_, ?_, ?_, ?_⟩
  · intro d there k
    rw [(spec d.target k).1, agree.named call here key, agree.named d there k, Parameters.set]
    simp only [addressed call here d there]
  · intro target unused k
    rw [(spec target k).1, if_neg fun same => unused call here same.1.1]
    exact agree.unusedTarget target unused k
  · intro object unused k
    rw [Parameters.set, if_neg fun same => unused call here same.1.1]
    exact agree.unusedObject object unused k
  · rcases (spec 0 0).2 with same | ⟨absent, more⟩
    · rw [same]
      exact agree.nodup
    · rw [more]
      exact agree.nodup.append (List.nodup_singleton _)
        (List.disjoint_singleton.mpr absent)
  · rcases (spec 0 0).2 with same | ⟨absent, more⟩
    · rw [same]
      exact agree.known
    · rw [more]
      intro pair there
      rcases List.mem_append.mp there with there | there
      · exact agree.known pair there
      · exact List.mem_singleton.mp there ▸ member

/-- What the loop of `directive_set_parameters` writes. -/
def applySettings (target : Nat) (override : Bool) (bindings : List Binder) :
    List (Nat × Bytes) → List Binder
  | [] => bindings
  | (key, value) :: rest =>
    match setParameter bindings target key value override with
    | none => bindings
    | some bindings => applySettings target override bindings rest

theorem applySettings_agree (agree : Agree calls keys bindings store) (storable : Storable keys)
    (addressed : Addressed calls) {call : Call} (here : call ∈ calls) (override : Bool)
    (settings : List (Nat × Bytes)) (inside : ∀ pair ∈ settings, (call.target, pair.1) ∈ keys) :
    Agree calls keys (applySettings call.target override bindings settings)
      (settings.foldl (fun store pair => store.set override call.object pair.1 pair.2) store) := by
  induction settings generalizing bindings store with
  | nil => exact agree
  | cons pair settings ih =>
    obtain ⟨key, value⟩ := pair
    obtain ⟨after, done, next⟩ := setParameter_agree agree storable addressed here
      (inside (key, value) List.mem_cons_self) value override
    simp only [applySettings, done, List.foldl_cons]
    exact ih next fun pair member => inside pair (List.mem_cons_of_mem _ member)

/-- The pass, over the pairs that `readCommand` takes. -/
theorem setParametersBody_eq (target : Nat) (override : Bool) (map : Context)
    (bindings : List Binder) :
    setParametersBody target override (map, bindings) =
      if isEndOfContext map then .inr (true, map, bindings)
      else
        match readCommand map with
        | (none, map) => .inr (false, map, bindings)
        | (some (key, value), map) =>
          match setParameter bindings target key value override with
          | none => .inr (false, map, bindings)
          | some bindings => .inl (map, bindings) := by
  simp only [setParametersBody, readCommand]
  rcases readUint map with ⟨_ | key, map⟩
  · rfl
  · dsimp only
    rcases readSubobject map with ⟨_ | value, map⟩
    · rfl
    · rfl

theorem setParametersLoop_eq (target : Nat) (override : Bool) (map : Context)
    (bindings : List Binder) :
    (Loop.eval (setParametersBody target override) _
      (setParametersBody_decreasing target override) (map, bindings)).2.2 =
        applySettings target override bindings (items readCommand map).reduceOption := by
  apply Loop.eval_induct (setParametersBody_decreasing target override) (fun st result =>
    result.2.2 = applySettings target override st.2 (items readCommand st.1).reduceOption)
  · rintro ⟨map, bindings⟩ result leave
    rw [setParametersBody_eq] at leave
    rw [items_unfold readCommand_consuming]
    split at leave
    · rename_i ended
      cases leave
      rw [if_pos ended]
      rfl
    · rename_i more
      rw [if_neg more]
      split at leave
      · rename_i read
        cases leave
        rw [read]
        rfl
      · rename_i key value after read
        rw [read]
        split at leave
        · rename_i full
          cases leave
          simp only [List.reduceOption_cons_of_some, applySettings, full]
        · cases leave
  · rintro ⟨map, bindings⟩ ⟨map', bindings'⟩ result pass ih
    rw [setParametersBody_eq] at pass
    rw [ih, items_unfold readCommand_consuming map]
    split at pass
    · cases pass
    · rename_i more
      rw [if_neg more]
      split at pass
      · cases pass
      · rename_i key value after read
        rw [read]
        split at pass
        · cases pass
        · rename_i done
          cases pass
          simp only [List.reduceOption_cons_of_some, applySettings, done]

end Store

section Runs
variable {U R : Type} {cb : Callbacks U R} {frames : Frames}

theorem directiveSetParameters_bindings (manifest : Manifest) (target : Nat) (object : Object)
    (command : Nat) (param : Bytes) (fx : Effects U R) :
    (directiveSetParameters manifest target object command param fx).2 =
      { fx with
        bindings := applySettings target (command == Command.directiveOverrideParameters)
          fx.bindings (parameterPairs param) } := by
  unfold directiveSetParameters parameterPairs
  dsimp only
  rcases readMap (toplevel (some param)) with ⟨_ | map, ctx⟩
  · rfl
  · have written := setParametersLoop_eq target (command == Command.directiveOverrideParameters) map
      fx.bindings
    dsimp only
    rw [← written]
    split
    · rename_i loop
      rw [loop]
    · rename_i loop
      rw [loop]

theorem directiveFetch_bindings (cb : Callbacks U R) (manifest : Manifest) (target : Nat)
    (object : Object) (command : Nat) (param : Bytes) (fx : Effects U R) :
    (directiveFetch cb manifest target object command param fx).2.bindings = fx.bindings ∧
      (directiveFetch cb manifest target object command param fx).2.calls = fx.calls := by
  have reply : ∀ reply : Reply U R, (applyReply reply fx).2.bindings = fx.bindings ∧
      (applyReply reply fx).2.calls = fx.calls := by
    intro reply
    unfold applyReply
    split
    · exact ⟨rfl, rfl⟩
    · exact ⟨rfl, rfl⟩
  unfold directiveFetch
  repeat' split
  all_goals
    first
    | exact ⟨rfl, rfl⟩
    | exact reply _

/-- What a handler call does to the table and to the history. -/
theorem callHandler_bindings {command : Nat} {handler : Handler U R}
    (found : findHandler cb command false = some handler) (manifest : Manifest) (target : Nat)
    (object : Object) (param : Bytes) (fx : Effects U R) :
    (callHandler handler manifest target object command param fx).2.calls =
        fx.calls ++ [⟨target, object, command, param⟩] ∧
      (callHandler handler manifest target object command param fx).2.bindings =
        applySettings target (Call.overrides ⟨target, object, command, param⟩) fx.bindings
          (Call.settings ⟨target, object, command, param⟩) := by
  obtain ⟨h, member, rfl, rfl⟩ := findHandler_mem found
  simp only [commandHandlers, List.mem_cons, List.not_mem_nil, or_false] at member
  unfold callHandler
  rcases member with rfl | rfl | rfl | rfl | rfl | rfl | rfl
  · exact ⟨rfl, rfl⟩
  · exact ⟨rfl, rfl⟩
  · exact ⟨rfl, rfl⟩
  · rw [directiveSetParameters_bindings]
    exact ⟨rfl, rfl⟩
  · rw [directiveSetParameters_bindings]
    exact ⟨rfl, rfl⟩
  · exact ⟨rfl, rfl⟩
  · have kept := directiveFetch_bindings cb manifest target object Command.directiveFetch param
      { fx with calls := fx.calls ++ [⟨target, object, Command.directiveFetch, param⟩] }
    exact ⟨kept.2, kept.1⟩

theorem Storable.mono {keys more : List (Nat × Nat)} (storable : Storable more)
    (inside : keys ⊆ more) : Storable keys := by
  refine ⟨fun pair member => storable.1 pair (inside member), Nat.le_trans ?_ storable.2⟩
  refine (List.subperm_of_subset keys.nodup_dedup fun pair member => ?_).length_le
  exact List.mem_dedup.mpr (inside (List.mem_dedup.mp member))

/-- Before the call is made, the table already agrees with the store on the
object it names: either the object was named before, or nothing was set. -/
theorem Agree.extend {calls : List Call} {keys more : List (Nat × Nat)} {bindings : List Binder}
    {store : Parameters} (agree : Agree calls keys bindings store) (call : Call)
    (addressed : Addressed (calls ++ [call])) (inside : keys ⊆ more) :
    Agree (calls ++ [call]) more bindings store := by
  have new : call ∈ calls ++ [call] := List.mem_append_right _ (List.mem_singleton_self call)
  refine ⟨?_, ?_, ?_, agree.nodup, fun pair member => inside (agree.known pair member)⟩
  · intro d member key
    rcases List.mem_append.mp member with member | member
    · exact agree.named d member key
    · cases List.mem_singleton.mp member
      by_cases before : ∃ c ∈ calls, c.target = call.target
      · obtain ⟨c, there, same⟩ := before
        rw [← same, ← (addressed c (List.mem_append_left _ there) call new).mp same]
        exact agree.named c there key
      · have target := agree.unusedTarget call.target
          (fun c there same => before ⟨c, there, same⟩) key
        have object := agree.unusedObject call.object (fun c there same =>
          before ⟨c, there, (addressed c (List.mem_append_left _ there) call new).mpr same⟩) key
        rw [target, object]
  · exact fun target unused =>
      agree.unusedTarget target fun c there => unused c (List.mem_append_left _ there)
  · exact fun object unused =>
      agree.unusedObject object fun c there => unused c (List.mem_append_left _ there)

theorem settingKeys_append (calls : List Call) (call : Call) :
    settingKeys (calls ++ [call]) =
      settingKeys calls ++ call.settings.map fun pair => (call.target, pair.1) := by
  simp [settingKeys]

theorem touches_agree {fx fx' : Effects U R} (touches : Touches cb fx fx')
    (agree : Addressed fx.calls → Storable (settingKeys fx.calls) →
      Agree fx.calls (settingKeys fx.calls) fx.bindings (parametersAfter fx.calls))
    (addressed : Addressed fx'.calls) (storable : Storable (settingKeys fx'.calls)) :
    Agree fx'.calls (settingKeys fx'.calls) fx'.bindings (parametersAfter fx'.calls) := by
  rcases touches with rfl | ⟨command, handler, manifest, target, object, param, found, rfl⟩
  · exact agree addressed storable
  · obtain ⟨history, table⟩ := callHandler_bindings found manifest target object param fx
    rw [history] at addressed storable ⊢
    rw [table]
    have inside : settingKeys fx.calls ⊆
        settingKeys (fx.calls ++ [⟨target, object, command, param⟩]) := by
      rw [settingKeys_append]
      exact List.subset_append_left _ _
    have before := agree
      (fun c there d there' =>
        addressed c (List.mem_append_left _ there) d (List.mem_append_left _ there'))
      (storable.mono inside)
    have after := applySettings_agree
      (before.extend ⟨target, object, command, param⟩ addressed inside) storable addressed
      (List.mem_append_right _ (List.mem_singleton_self _))
      (Call.overrides ⟨target, object, command, param⟩)
      (Call.settings ⟨target, object, command, param⟩) (by
        intro pair member
        rw [settingKeys_append]
        exact List.mem_append_right _ (List.mem_map_of_mem member))
    simp only [parametersAfter, List.foldl_append, List.foldl_cons, List.foldl_nil] at after ⊢
    exact after

/-- A run of the install sequence of one envelope, up to its first suspension. -/
def firstRun (envelope : Bytes) : Option (Runner Unit Unit) :=
  (suitRunnerInit (fun _ => none) (contextOf envelope) .install ()).bind
    (suitRunnerRun suspendingCallbacks ⟨0, 1, 2⟩ 9)

theorem firstRun_passes {envelope : Bytes} {runner : Runner Unit Unit}
    (ran : firstRun envelope = some runner) :
    ∃ start, suitRunnerInit (fun _ => none) (contextOf envelope) .install () = some start ∧
      Relation.ReflTransGen (Pass suspendingCallbacks ⟨0, 1, 2⟩) start runner := by
  obtain ⟨start, started, run⟩ := Option.bind_eq_some_iff.mp ran
  exact ⟨start, started, suitRunnerRun_passes run⟩

/-- Component 0 gets the URI "a", component 1 the URI "b", then 1 is fetched. -/
def twoComponentEnvelope : Bytes :=
  [0xD8, 0x6B, 0xA1, 0x03, 0x58, 0x26, 0xA4, 0x01, 0x01, 0x02, 0x00, 0x03, 0x4C, 0xA2, 0x02, 0x82,
   0x81, 0x41, 0x30, 0x81, 0x41, 0x31, 0x04, 0x41, 0x80, 0x09, 0x51, 0x8A, 0x0C, 0x00, 0x13, 0xA1,
   0x15, 0x61, 0x61, 0x0C, 0x01, 0x13, 0xA1, 0x15, 0x61, 0x62, 0x15, 0x02]

theorem twoComponent_run :
    (firstRun twoComponentEnvelope).map (fun runner =>
        (runner.effects.calls, runner.effects.bindings)) =
      some ([⟨0, .component 0 ⟨some [0x81, 0x41, 0x30]⟩, 19, [0xA1, 0x15, 0x61, 0x61]⟩,
        ⟨0, .component 1 ⟨some [0x81, 0x41, 0x31]⟩, 19, [0xA1, 0x15, 0x61, 0x62]⟩,
        ⟨0, .component 1 ⟨some [0x81, 0x41, 0x31]⟩, 21, [0x02]⟩],
        [⟨0, 21, [0x61, 0x61]⟩]) := by
  decide

end Runs

end TeepDevice.Suit
