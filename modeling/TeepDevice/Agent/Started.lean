import TeepDevice.Agent.Authenticated

/-! The runner and its root manifest: an Update without envelopes is accepted
and starts the runner on nothing, and nothing else does. -/
namespace TeepDevice.Agent
open Tcbor Suit Teep Transition

variable {p : Platform}

section Faults

theorem storeSuitEnvelopes_fault {index : Nat} {envelopes : List Bytes} {ta : Ta} {fault : Fault}
    (failed : storeSuitEnvelopes p index envelopes ta = .error fault) : fault = .doubleFree := by
  induction envelopes generalizing index ta with
  | nil => cases failed
  | cons envelope rest ih =>
    simp only [storeSuitEnvelopes] at failed
    split at failed
    · rename_i first
      cases failed
      unfold storeSuitEnvelope at first
      split at first
      · split at first
        · unfold storeBstr at first
          split at first
          · cases first
            rfl
          · split at first
            · cases first
            · cases first
        · cases first
      · cases first
    · cases failed
    · exact ih failed

theorem handleUpdate_fault {ta : Ta} {m : Message} {fault : Fault}
    (failed : handleUpdate p ta m = .error fault) : fault = .doubleFree := by
  by_cases state : ta.session.state = .postingQueryResponse
  · cases stored : storeSuitEnvelopes p 0 (m.manifestList.getD []) ta with
    | error fault' =>
      simp only [handleUpdate, state, stored, ne_eq, not_true, if_false] at failed
      cases failed
      exact storeSuitEnvelopes_fault stored
    | ok pair =>
      obtain ⟨good, next⟩ := pair
      cases good with
      | false =>
        simp only [handleUpdate, state, stored, ne_eq, not_true, if_false] at failed
        cases failed
      | true =>
        rw [handleUpdate_added state stored] at failed
        cases failed
  · rw [handleUpdate, if_pos state] at failed
    cases failed

theorem handleTamMessage_fault {ta : Ta} {buffer : Bytes} {fault : Fault}
    (failed : handleTamMessage p ta buffer = .error fault) :
    fault = .doubleFree ∨ fault = .nullCopy := by
  unfold handleTamMessage at failed
  split at failed
  · cases failed
  · split at failed
    · cases failed
    · dsimp only at failed
      split at failed
      · cases failed
      · split at failed
        · rename_i handled
          cases failed
          split at handled
          · cases handled
          · cases handled
          · cases handled
          · unfold handleQueryRequest at handled
            split at handled
            · cases handled
            · dsimp only at handled
              split at handled
              · cases handled
              · split at handled
                · cases handled
                · cases handled
                  exact .inr rfl
          · exact .inl (handleUpdate_fault handled)
        · cases failed

theorem queryBody_nullManifest {fuel : Nat} {ta : Ta}
    (failed : queryBody p fuel ta = .inr (.error .nullManifest)) :
    ta.session.state = .initRunner ∧ ta.session.suitContext.nManifest = 0 := by
  unfold queryBody at failed
  split at failed
  · cases failed
  · cases failed
  · cases failed
  · cases failed
  · cases failed
  · rename_i state
    split at failed
    · rename_i unstarted
      refine ⟨state, ?_⟩
      unfold suitRunnerInit suitContextGetRootManifest at unstarted
      by_contra some
      rw [if_neg some] at unstarted
      cases unstarted
    · cases failed
  · split at failed
    · cases failed
    · dsimp only at failed
      split at failed
      · cases failed
      · split at failed
        · cases failed
        · cases failed
  · dsimp only at failed
    split at failed
    · cases failed
    · cases failed
  · cases failed

theorem query_nullManifest {fuel : Nat} {ta : Ta}
    (failed : queryNextBrokerTask p fuel ta = .error .nullManifest) :
    ta.session.state = .initRunner ∧ ta.session.suitContext.nManifest = 0 := by
  cases idle : ta.session.onGoingTask with
  | true =>
    rw [queryNextBrokerTask, if_pos idle] at failed
    cases failed
  | false =>
    have leaves (s : Ta) (result : Except Fault Ta) (keeps : KeepsContext ta s)
        (pass : queryBody p fuel s = .inr result) : result = .error .nullManifest →
          ta.session.state = .initRunner ∧ ta.session.suitContext.nManifest = 0 := by
      intro null
      rw [null] at pass
      obtain ⟨state, empty⟩ := queryBody_nullManifest pass
      rw [keeps.same] at empty
      exact ⟨keeps.starts state, empty⟩
    have result := queryNextBrokerTask_rule (KeepsContext ta) _
      (fun _ _ keeps pass => pass_keepsContext keeps (queryBody_goes pass)) leaves (.refl ta) idle
    exact result failed

/-- The null manifest is read in one place only. -/
theorem invokeCommand_nullManifest {fuel : Nat} {ta : Ta} {command : Command}
    (failed : invokeCommand p fuel ta command = .error .nullManifest) :
    ta.session.state = .initRunner ∧ ta.session.suitContext.nManifest = 0 := by
  cases command with
  | setDevOption option value =>
    simp only [invokeCommand] at failed
    split at failed
    · cases failed
    · split at failed
      · cases failed
      · cases failed
  | brokerTaskDone buffer =>
    simp only [invokeCommand] at failed
    split at failed
    · rename_i fault
      cases failed
      unfold brokerTaskDone at fault
      split at fault
      · cases fault
      · split at fault
        · cases fault
        · split at fault
          · rename_i handled
            cases fault
            rcases handleTamMessage_fault handled with other | other
            · cases other
            · cases other
          · cases fault
        · cases fault
    · cases failed
  | queryNextBrokerTask uriSize postDataSize =>
    simp only [invokeCommand] at failed
    split at failed
    · rename_i fault
      cases failed
      exact query_nullManifest fault
    · split at failed
      · rename_i copied
        cases failed
        unfold copyoutTask at copied
        split at copied
        · cases copied
        · split at copied
          · cases copied
          · split at copied
            · cases copied
            · cases copied
      · cases failed
  | other id =>
    simp only [invokeCommand] at failed
    cases failed

end Faults

/-- An Update that meets the agent while it waits for one lists an envelope. -/
def ListsEnvelopes (p : Platform) (ta : Ta) : Command → Prop
  | .brokerTaskDone buffer =>
    ta.session.onGoingTask = true → ta.session.state = .postingQueryResponse →
      ∀ m ∈ parsed p ta buffer, m.type = .update → m.manifestList.getD [] ≠ []
  | _ => True

instance (p : Platform) (ta : Ta) : (command : Command) → Decidable (ListsEnvelopes p ta command)
  | .setDevOption _ _ => inferInstanceAs (Decidable True)
  | .brokerTaskDone buffer => inferInstanceAs (Decidable (ta.session.onGoingTask = true →
      ta.session.state = .postingQueryResponse →
        ∀ m ∈ parsed p ta buffer, m.type = .update → m.manifestList.getD [] ≠ []))
  | .queryNextBrokerTask _ _ => inferInstanceAs (Decidable True)
  | .other _ => inferInstanceAs (Decidable True)

/-- With the invariant of the context, a session about to start its runner has
a manifest. -/
structure Startable (p : Platform) (ta : Ta) : Prop where
  only : OnlyAuthentic p ta
  some : ta.session.state = .initRunner → 0 < ta.session.suitContext.nManifest

theorem step_startable {ta ta' : Ta} {command : Command} (startable : Startable p ta)
    (step : Guarded (ListsEnvelopes p) (Step p) ta command ta') : Startable p ta' := by
  obtain ⟨lists, step⟩ := step
  refine ⟨step_onlyAuthentic startable.only step, ?_⟩
  intro starts
  rcases step_context step with keeps | ⟨envelopes, accepts⟩
  · rw [keeps.same]
    exact startable.some (keeps.starts starts)
  · obtain ⟨buffer, m, rfl, parse, type, rfl⟩ := accepts.update
    have nonempty := lists accepts.posted.1 accepts.state m parse type
    rw [(accepts.holds startable.only starts).count]
    exact List.length_pos_iff.mpr nonempty

/-- In every run whose Updates list envelopes, the runner starts with a root
manifest and no command reads through the missing one. -/
theorem runner_starts_with_manifest {memory : Session} {commands : List Command} {ta : Ta}
    (run : Run (Guarded (ListsEnvelopes p) (Step p)) (Ta.start memory) commands ta) :
    (ta.session.state = .initRunner →
      0 < ta.session.suitContext.nManifest ∧
        (suitContextGetRootManifest ta.session.suitContext).isSome = true) ∧
      ∀ fuel command, invokeCommand p fuel ta command ≠ .error .nullManifest := by
  have initial : Startable p (Ta.start memory) := ⟨run_onlyAuthentic (.nil _), nofun⟩
  have startable : Startable p ta :=
    run.invariant (Startable p) (fun _ _ _ holds step => step_startable holds step) initial
  constructor
  · intro starts
    have some := startable.some starts
    refine ⟨some, ?_⟩
    rw [suitContextGetRootManifest, if_neg (Nat.ne_of_gt some)]
    rfl
  · intro fuel command null
    obtain ⟨starts, empty⟩ := invokeCommand_nullManifest null
    exact absurd empty (Nat.ne_of_gt (startable.some starts))

theorem runner_starts_with_manifest_readme :
    ∃ ta, exec (execStep readmePlatform 0 (ListsEnvelopes readmePlatform)) (Ta.start blankMemory)
        readmeCommands = some ta ∧
      ta.session.state = .initRunner ∧
      (suitContextGetRootManifest ta.session.suitContext).isSome = true := by
  have reached : (exec (execStep readmePlatform 0 (ListsEnvelopes readmePlatform))
      (Ta.start blankMemory) readmeCommands).map (fun ta => ta.session.state) =
        some .initRunner := by decide +kernel
  obtain ⟨ta, executed, state⟩ := Option.map_eq_some_iff.mp reached
  exact ⟨ta, executed, state, ((runner_starts_with_manifest (exec_run executed)).1 state).2⟩

/-- A QueryRequest with no options and no items, then an Update with no options. -/
def bareCommands : List Command :=
  [query, .brokerTaskDone [0x83, 0x01, 0xA0, 0x02], query, .brokerTaskDone [0x82, 0x03, 0xA0]]

theorem bare_update_starts_without_manifest :
    ∃ ta, Run (Step readmePlatform) (Ta.start blankMemory) bareCommands ta ∧
      ta.session.state = .initRunner ∧ ta.session.suitContext.nManifest = 0 ∧
      invokeCommand readmePlatform 0 ta query = .error .nullManifest := by
  have reached : (exec (execStep readmePlatform 0 fun _ _ => True) (Ta.start blankMemory)
      bareCommands).map (fun ta => (ta.session.state, ta.session.suitContext.nManifest,
        ta.session.onGoingTask)) = some (.initRunner, 0, false) := by decide +kernel
  obtain ⟨ta, executed, last⟩ := Option.map_eq_some_iff.mp reached
  obtain ⟨state, count, idle⟩ : ta.session.state = .initRunner ∧
      ta.session.suitContext.nManifest = 0 ∧ ta.session.onGoingTask = false := by
    simpa using last
  refine ⟨ta, (exec_run executed).of_guarded, state, count, ?_⟩
  have unstarted : queryNextBrokerTask readmePlatform 0 ta = .error .nullManifest := by
    rw [queryNextBrokerTask, if_neg (by rw [idle]; exact Bool.false_ne_true), Loop.eval_unfold]
    simp only [queryBody, state, suitRunnerInit, suitContextGetRootManifest, count, if_true]
  simp only [query, invokeCommand, unstarted]

end TeepDevice.Agent
