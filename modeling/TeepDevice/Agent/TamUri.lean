import TeepDevice.Agent.Authenticated
import TeepDevice.Agent.Tools

/-! The TAM's URI on its way from `SET_TAM_URI` to the tasks that post to it: a
size check and two copies of at most 511 bytes into arrays that are never
cleared. The `strncpy` of tools.c ends what it copies, that of the C library
only if there is room left. -/
namespace TeepDevice.Agent
open Tcbor Suit Teep Transition

section Copies
variable {own : Bool} {dst src value : Bytes} {n : Nat}

theorem copied_string (copied : (src.take n).takeWhile (· ≠ 0) = value) :
    0 ∉ value ∧ value.length ≤ n := by
  subst copied
  constructor
  · intro zero
    have other := List.mem_takeWhile_imp zero
    exact of_decide_eq_true other rfl
  · exact Nat.le_trans (List.takeWhile_prefix _).length_le (List.length_take_le n src)

/-- The copy is ended, or it fills all but the last byte, which stays. -/
theorem strncpy_cases (size : dst.length = n + 1)
    (copied : (src.take n).takeWhile (· ≠ 0) = value) :
    ((own = true ∨ value.length < n) ∧ ∃ rest, strncpy own dst src n = value ++ 0 :: rest) ∨
      (own = false ∧ value.length = n ∧
        ∃ b, dst[n]? = some b ∧ strncpy own dst src n = value ++ [b]) := by
  have short := (copied_string copied).2
  obtain ⟨b, last⟩ : ∃ b, dst.drop n = [b] := List.length_eq_one_iff.mp (by
    rw [List.length_drop]
    omega)
  rw [strncpy, copied]
  by_cases room : value.length < n
  · left
    refine ⟨.inr room, ?_⟩
    obtain ⟨more, missing⟩ : ∃ more, n - value.length = more + 1 := ⟨n - value.length - 1, by omega⟩
    cases own with
    | true =>
      simp only [if_pos room, if_true]
      rw [List.append_assoc, List.set_append_right _ _ short, missing]
      exact ⟨_, rfl⟩
    | false =>
      simp only [Bool.false_eq_true, if_false, missing, List.replicate_succ, List.append_assoc]
      exact ⟨_, rfl⟩
  · have full : value.length = n := by omega
    cases own with
    | true =>
      left
      refine ⟨.inl rfl, [], ?_⟩
      simp only [if_neg room, if_true]
      rw [List.set_append_right _ _ short, full, last, Nat.sub_self]
      rfl
    | false =>
      right
      refine ⟨rfl, full, b, ?_, ?_⟩
      · have first := congrArg (·[0]?) last
        rwa [List.getElem?_drop] at first
      · simp only [Bool.false_eq_true, if_false, full, Nat.sub_self, List.replicate_zero,
          List.append_nil, last]

theorem length_strncpy (size : dst.length = n + 1) :
    (strncpy own dst src n).length = n + 1 := by
  have short := (@copied_string src _ n rfl).2
  unfold strncpy
  generalize (src.take n).takeWhile (· ≠ 0) = copied at short
  cases own with
  | true =>
    simp only [if_true, List.length_set, List.length_append, List.length_drop]
    split
    · rw [List.length_append, List.length_singleton]
      omega
    · omega
  | false =>
    simp only [Bool.false_eq_true, if_false, List.length_append, List.length_replicate,
      List.length_drop]
    omega

/-- Either `strncpy` leaves the string in the first `n` bytes. -/
theorem strncpy_copied (size : dst.length = n + 1)
    (copied : (src.take n).takeWhile (· ≠ 0) = value) :
    ((strncpy own dst src n).take n).takeWhile (· ≠ 0) = value := by
  obtain ⟨inside, short⟩ := copied_string copied
  rcases strncpy_cases size copied with ⟨-, rest, ended⟩ | ⟨-, full, b, -, filled⟩
  · rw [ended, takeWhile_string inside, List.take_of_length_le short]
  · rw [filled, ← full, List.take_left, List.takeWhile_eq_self_iff]
    exact fun c member => decide_eq_true fun zero => inside (zero ▸ member)

/-- The copy is ended by tools.c, by the padding, or by what was there before. -/
theorem cString_strncpy (size : dst.length = n + 1)
    (copied : (src.take n).takeWhile (· ≠ 0) = value) :
    Memory.cString (strncpy own dst src n) = some value ↔
      own = true ∨ value.length < n ∨ dst[n]? = some 0 := by
  have inside := (copied_string copied).1
  rcases strncpy_cases size copied with ⟨ends, rest, ended⟩ | ⟨other, full, b, last, filled⟩
  · rw [ended]
    refine ⟨fun _ => ?_, fun _ => Memory.cString_append inside rest⟩
    rcases ends with own | room
    · exact .inl own
    · exact .inr (.inl room)
  · rw [filled, last, other, full]
    simp only [Bool.false_eq_true, Nat.lt_irrefl, false_or, Option.some.injEq]
    constructor
    · intro string
      obtain ⟨-, rest, whole⟩ := Memory.cString_eq_some_iff.mp string
      exact (List.cons.inj (List.append_cancel_left whole)).1
    · rintro rfl
      exact Memory.cString_append inside []

end Copies

def Ta.setTamUri (ta : Ta) (uri : Bytes) : Ta :=
  { ta with session := { ta.session with tamUri := uri } }

/-- `SET_TAM_URI` takes the buffer and returns success. -/
def Sets (p : Platform) (ta : Ta) (buffer : Bytes) (ta' : Ta) : Prop :=
  ∃ fuel, invokeCommand p fuel ta (.setDevOption 0 buffer) = .ok (ta', ⟨teeSuccess, none⟩)

/-- The command is not a `SET_TAM_URI` that is accepted. -/
def KeepsUri (p : Platform) (ta : Ta) (command : Command) : Prop :=
  ∀ buffer, command = .setDevOption 0 buffer → ∀ ta', ¬ Sets p ta buffer ta'

/-- The URI in an outstanding POST. -/
def PostsTo (value : Bytes) (ta : Ta) : Prop :=
  ta.session.onGoingTask = true → ta.session.taskBuffer.command = .httpPost →
    Memory.cString ta.session.taskBuffer.uri = some value

/-- A copy of the URI into the task is ended. -/
def CopyEnds (p : Platform) (value : Bytes) (ta : Ta) : Prop :=
  p.ownStrncpy = true ∨ value.length < teepMaxUriLen - 1 ∨
    ta.session.taskBuffer.uri[teepMaxUriLen - 1]? = some 0

/-- The URI stays configured, and each query ends its copy. -/
def KeepsCopies (p : Platform) (value : Bytes) (ta : Ta) (command : Command) : Prop :=
  KeepsUri p ta command ∧
    ∀ uriSize postDataSize, command = .queryNextBrokerTask uriSize postDataSize →
      CopyEnds p value ta

/-- The session's URI reads as the value, over the bytes that are copied. -/
structure Configured (value : Bytes) (ta : Ta) : Prop where
  copied : (ta.session.tamUri.take (teepMaxUriLen - 1)).takeWhile (· ≠ 0) = value
  size : ta.session.taskBuffer.uri.length = teepMaxUriLen

section Steps
variable {p : Platform} {value : Bytes}

/-- What `SET_TAM_URI` does with a value. -/
theorem setDevOption_uri (ta : Ta) (value : Bytes) :
    setDevOption p ta 0 value =
      if ta.session.state ≠ .init then (ta, teeErrorBadState)
      else if teepMaxUriLen < value.length + 1 then (ta, teeErrorBadParameters)
      else
        (ta.setTamUri (strncpy p.ownStrncpy ta.session.tamUri (value ++ [0]) (teepMaxUriLen - 1)),
          teeSuccess) := rfl

theorem sets_cases {ta ta' : Ta} {buffer : Bytes} (sets : Sets p ta buffer ta') :
    ta.session.state = .init ∧ (buffer.takeWhile (· ≠ 0)).length + 1 ≤ teepMaxUriLen ∧
      ta' = ta.setTamUri (strncpy p.ownStrncpy ta.session.tamUri
        (buffer.takeWhile (· ≠ 0) ++ [0]) (teepMaxUriLen - 1)) := by
  obtain ⟨fuel, done⟩ := sets
  rcases invokeCommand_option done with ⟨-, failed⟩ | ⟨result, set, success⟩
  · cases failed
  · cases success
    rw [setDevOption_uri] at set
    split at set
    · cases set
    · rename_i state
      split at set
      · cases set
      · rename_i fits
        cases set
        exact ⟨not_not.mp state, Nat.not_lt.mp fits, rfl⟩

theorem sets_accepts {ta : Ta} {buffer : Bytes} (state : ta.session.state = .init)
    (ended : buffer.getLast? = some 0)
    (fits : (buffer.takeWhile (· ≠ 0)).length + 1 ≤ teepMaxUriLen) :
    Sets p ta buffer (ta.setTamUri (strncpy p.ownStrncpy ta.session.tamUri
      (buffer.takeWhile (· ≠ 0) ++ [0]) (teepMaxUriLen - 1))) := by
  have isEnded : ¬ (0 : UInt8) ≠ 0 := fun other => other rfl
  refine ⟨0, ?_⟩
  simp only [invokeCommand, ended, if_neg isEnded, setDevOption_uri, if_neg (not_not.mpr state),
    if_neg (Nat.not_lt.mpr fits)]

/-- An accepted value is configured. -/
theorem sets_configured {ta ta' : Ta} {buffer : Bytes} (sets : Sets p ta buffer ta')
    (field : ta.session.tamUri.length = teepMaxUriLen)
    (size : ta.session.taskBuffer.uri.length = teepMaxUriLen) :
    Configured (buffer.takeWhile (· ≠ 0)) ta' := by
  obtain ⟨-, fits, rfl⟩ := sets_cases sets
  have inside : 0 ∉ buffer.takeWhile (· ≠ 0) := (@copied_string buffer _ buffer.length (by
    rw [List.take_length])).1
  have short : (buffer.takeWhile (· ≠ 0)).length ≤ teepMaxUriLen - 1 := Nat.le_sub_one_of_lt fits
  refine ⟨strncpy_copied field ?_, size⟩
  rw [takeWhile_string inside, List.take_of_length_le short]

/-- A value that does not fit is rejected and changes nothing. -/
theorem setDevOption_rejects (ta : Ta) (fuel : Nat) {buffer : Bytes}
    (ended : buffer.getLast? = some 0)
    (long : teepMaxUriLen ≤ (buffer.takeWhile (· ≠ 0)).length) :
    ∃ result, result ≠ teeSuccess ∧
      invokeCommand p fuel ta (.setDevOption 0 buffer) = .ok (ta, ⟨result, none⟩) := by
  have tooLong : teepMaxUriLen < (buffer.takeWhile (· ≠ 0)).length + 1 := Nat.lt_succ_of_le long
  have isEnded : ¬ (0 : UInt8) ≠ 0 := fun other => other rfl
  simp only [invokeCommand, ended, if_neg isEnded, setDevOption_uri, if_pos tooLong]
  split
  · exact ⟨teeErrorBadState, by decide, rfl⟩
  · exact ⟨teeErrorBadParameters, by decide, rfl⟩

theorem tamOutcome_uris {ta next : Ta} {buffer : Bytes} {result : Nat}
    (outcome : TamOutcome p ta buffer next result) :
    next.session.tamUri = ta.session.tamUri ∧ next.session.taskBuffer = ta.session.taskBuffer := by
  cases outcome with
  | _ => exact ⟨rfl, rfl⟩

theorem handleComponentDownload_uris (ta : Ta) (buffer : Bytes) :
    (handleComponentDownload p ta buffer).1.session.tamUri = ta.session.tamUri ∧
      (handleComponentDownload p ta buffer).1.session.taskBuffer = ta.session.taskBuffer := by
  unfold handleComponentDownload
  split
  · exact ⟨rfl, rfl⟩
  · exact ⟨rfl, rfl⟩

theorem brokerTaskDone_uris {ta ta' : Ta} {buffer : Bytes} {result : Nat}
    (done : brokerTaskDone p ta buffer = .ok (ta', result)) :
    ta'.session.tamUri = ta.session.tamUri ∧
      ta'.session.taskBuffer = ta.session.taskBuffer ∧
      (ta'.session.onGoingTask = true → ta' = ta) := by
  unfold brokerTaskDone at done
  split at done
  · cases done
    exact ⟨rfl, rfl, fun _ => rfl⟩
  · split at done
    · cases done
      exact ⟨rfl, rfl, fun _ => rfl⟩
    · split at done
      · cases done
      · rename_i handled
        cases done
        obtain ⟨uri, task⟩ := tamOutcome_uris (handleTamMessage_outcome handled)
        exact ⟨uri, task, nofun⟩
    · have same : ta' = (handleComponentDownload p ta buffer).1.clearTask := by
        cases done
        rfl
      subst same
      obtain ⟨uri, task⟩ := handleComponentDownload_uris (p := p) ta buffer
      exact ⟨uri, task, nofun⟩

/-- The URI of a task that is handed out: for a POST a copy of the session's. -/
theorem queryBody_uri {fuel : Nat} {ta next : Ta}
    (size : ta.session.taskBuffer.uri.length = teepMaxUriLen)
    (pass : queryBody p fuel ta = .inr (.ok next)) :
    next.session.tamUri = ta.session.tamUri ∧
      next.session.taskBuffer.uri.length = teepMaxUriLen ∧
      (next.session.taskBuffer.command = .httpPost → next.session.taskBuffer.uri =
        strncpy p.ownStrncpy ta.session.taskBuffer.uri ta.session.tamUri (teepMaxUriLen - 1)) := by
  have copied : (strncpy p.ownStrncpy ta.session.taskBuffer.uri ta.session.tamUri
      (teepMaxUriLen - 1)).length = teepMaxUriLen := length_strncpy size
  cases queryBody_handsOut pass with
  | initial | posted => exact ⟨rfl, copied, fun _ => rfl⟩
  | fetch state waits fits =>
    refine ⟨rfl, ?_, fun post => by cases post⟩
    rw [Ta.setTask, List.length_append, List.length_replicate]
    omega
  | finish =>
    refine ⟨rfl, ?_, fun post => by cases post⟩
    rw [Ta.setTask, List.length_set]
    exact size

/-- What a query hands out, in terms of the session before it. -/
theorem query_uri {fuel : Nat} {ta ta' : Ta}
    (size : ta.session.taskBuffer.uri.length = teepMaxUriLen)
    (idle : ta.session.onGoingTask = false) (query : queryNextBrokerTask p fuel ta = .ok ta') :
    ta'.session.tamUri = ta.session.tamUri ∧
      ta'.session.taskBuffer.uri.length = teepMaxUriLen ∧
      (ta'.session.taskBuffer.command = .httpPost → ta'.session.taskBuffer.uri =
        strncpy p.ownStrncpy ta.session.taskBuffer.uri ta.session.tamUri (teepMaxUriLen - 1)) := by
  refine query_rule
    (fun s => s.session.tamUri = ta.session.tamUri ∧ s.session.taskBuffer = ta.session.taskBuffer)
    (fun ta' => ta'.session.tamUri = ta.session.tamUri ∧
      ta'.session.taskBuffer.uri.length = teepMaxUriLen ∧
      (ta'.session.taskBuffer.command = .httpPost → ta'.session.taskBuffer.uri =
        strncpy p.ownStrncpy ta.session.taskBuffer.uri ta.session.tamUri (teepMaxUriLen - 1)))
    ?_ ?_ ⟨rfl, rfl⟩ idle query
  · intro s next same _ pass
    obtain ⟨state, runner, rfl⟩ := pass_same pass
    exact same
  · intro s next same _ pass
    have uris := queryBody_uri (by rw [same.2, size]) pass
    rw [same.1, same.2] at uris
    exact uris

/-- The URI of a POST that is handed out is right exactly when the copy ends. -/
theorem query_postsTo {fuel : Nat} {ta ta' : Ta} (configured : Configured value ta)
    (idle : ta.session.onGoingTask = false) (query : queryNextBrokerTask p fuel ta = .ok ta')
    (post : ta'.session.taskBuffer.command = .httpPost) :
    Memory.cString ta'.session.taskBuffer.uri = some value ↔ CopyEnds p value ta := by
  rw [(query_uri configured.size idle query).2.2 post]
  exact cString_strncpy configured.size configured.copied

/-- What a command does to the two URIs. -/
inductive StepUris (p : Platform) (ta : Ta) : Command → Ta → Prop where
  | sets {buffer : Bytes} {ta' : Ta} (sets : Sets p ta buffer ta') :
    StepUris p ta (.setDevOption 0 buffer) ta'
  | same {command : Command} {ta' : Ta} (uri : ta'.session.tamUri = ta.session.tamUri)
      (task : ta'.session.taskBuffer = ta.session.taskBuffer)
      (busy : ta'.session.onGoingTask = true → ta.session.onGoingTask = true) :
    StepUris p ta command ta'
  | hands {fuel uriSize postDataSize : Nat} {ta' : Ta} (idle : ta.session.onGoingTask = false)
      (query : queryNextBrokerTask p fuel ta = .ok ta') :
    StepUris p ta (.queryNextBrokerTask uriSize postDataSize) ta'

theorem setDevOption_uris {ta : Ta} {option : Nat} (value : Bytes)
    (other : option ≠ 0 ∨ (setDevOption p ta option value).2 ≠ teeSuccess) :
    (setDevOption p ta option value).1.session.tamUri = ta.session.tamUri ∧
      (setDevOption p ta option value).1.session.taskBuffer = ta.session.taskBuffer ∧
      (setDevOption p ta option value).1.session.onGoingTask = ta.session.onGoingTask := by
  by_cases zero : option = 0
  · subst zero
    have failed := other.resolve_left (fun other => other rfl)
    rw [setDevOption_uri] at failed ⊢
    split
    · exact ⟨rfl, rfl, rfl⟩
    · rename_i state
      rw [if_neg state] at failed
      split
      · exact ⟨rfl, rfl, rfl⟩
      · rename_i fits
        rw [if_neg fits] at failed
        exact absurd rfl failed
  · rw [setDevOption]
    split
    · exact ⟨rfl, rfl, rfl⟩
    · repeat' split
      all_goals exact ⟨rfl, rfl, rfl⟩

theorem step_uris {ta ta' : Ta} {command : Command} (step : Step p ta command ta') :
    StepUris p ta command ta' := by
  obtain ⟨fuel, response, done⟩ := step
  cases command with
  | setDevOption option buffer =>
    rcases invokeCommand_option done with ⟨rfl, -⟩ | ⟨result, set, rfl⟩
    · exact .same rfl rfl id
    · by_cases other : option ≠ 0 ∨
          (setDevOption p ta option (buffer.takeWhile (· ≠ 0))).2 ≠ teeSuccess
      · obtain ⟨uri, task, busy⟩ := setDevOption_uris _ other
        rw [set] at uri task busy
        exact .same uri task (busy ▸ id)
      · obtain ⟨zero, success⟩ := not_or.mp other
        obtain rfl := not_not.mp zero
        rw [set] at success
        obtain rfl : result = teeSuccess := not_not.mp success
        exact .sets ⟨fuel, done⟩
  | brokerTaskDone buffer =>
    obtain ⟨result, handled⟩ := invokeCommand_done done
    obtain ⟨uri, task, busy⟩ := brokerTaskDone_uris handled
    exact .same uri task fun after => busy after ▸ after
  | queryNextBrokerTask uriSize postDataSize =>
    obtain ⟨query, -⟩ := invokeCommand_query done
    cases idle : ta.session.onGoingTask with
    | true =>
      rw [queryNextBrokerTask, if_pos idle] at query
      cases query
      exact .same rfl rfl id
    | false => exact .hands idle query
  | other number =>
    simp only [invokeCommand] at done
    cases done
    exact .same rfl rfl id

theorem step_configured {ta ta' : Ta} {command : Command} (configured : Configured value ta)
    (keeps : KeepsUri p ta command) (step : Step p ta command ta') : Configured value ta' := by
  cases step_uris step with
  | sets sets => exact absurd sets (keeps _ rfl _)
  | same uri task => exact ⟨uri ▸ configured.copied, task ▸ configured.size⟩
  | hands idle query =>
    obtain ⟨uri, size, -⟩ := query_uri configured.size idle query
    exact ⟨uri ▸ configured.copied, size⟩

theorem step_postsTo {ta ta' : Ta} {command : Command} (configured : Configured value ta)
    (keeps : KeepsCopies p value ta command) (posts : PostsTo value ta)
    (step : Step p ta command ta') : PostsTo value ta' := by
  intro busy post
  cases step_uris step with
  | sets sets => exact absurd sets (keeps.1 _ rfl _)
  | same uri task before =>
    rw [task] at post ⊢
    exact posts (before busy) post
  | hands idle query => exact (query_postsTo configured idle query post).mpr (keeps.2 _ _ rfl)

/-- The arrays of a session have the sizes that C gives them. -/
structure Sized (ta : Ta) : Prop where
  tamUri : ta.session.tamUri.length = teepMaxUriLen
  taskUri : ta.session.taskBuffer.uri.length = teepMaxUriLen

theorem step_sized {ta ta' : Ta} {command : Command} (sized : Sized ta)
    (step : Step p ta command ta') : Sized ta' := by
  cases step_uris step with
  | sets sets =>
    obtain ⟨-, -, rfl⟩ := sets_cases sets
    exact ⟨length_strncpy sized.tamUri, sized.taskUri⟩
  | same uri task => exact ⟨uri ▸ sized.tamUri, task ▸ sized.taskUri⟩
  | hands idle query =>
    obtain ⟨uri, size, -⟩ := query_uri sized.taskUri idle query
    exact ⟨uri ▸ sized.tamUri, size⟩

theorem run_configured {ta ta' : Ta} {after : List Command} (configured : Configured value ta)
    (run : Run (Guarded (KeepsUri p) (Step p)) ta after ta') : Configured value ta' :=
  run.invariant (Configured value)
    (fun _ _ _ configured step => step_configured configured step.1 step.2) configured

theorem run_postsTo {ta ta' : Ta} {after : List Command} (configured : Configured value ta)
    (posts : PostsTo value ta) (run : Run (Guarded (KeepsCopies p value) (Step p)) ta after ta') :
    PostsTo value ta' := by
  refine (run.invariant (fun ta => Configured value ta ∧ PostsTo value ta) ?_
    ⟨configured, posts⟩).2
  rintro s command t ⟨configured, posts⟩ ⟨keeps, step⟩
  exact ⟨step_configured configured keeps.1 step, step_postsTo configured keeps posts step⟩

theorem run_sized {memory : Session} (tamUri : memory.tamUri.length = teepMaxUriLen)
    (taskUri : memory.taskBuffer.uri.length = teepMaxUriLen) {commands : List Command} {ta : Ta}
    (run : Run (Step p) (Ta.start memory) commands ta) : Sized ta :=
  run.invariant Sized (fun _ _ _ sized step => step_sized sized step) ⟨tamUri, taskUri⟩

end Steps

/-- After an accepted value, whatever was in memory: a POST that is handed out has
it in its field exactly when the copy ends, and every POST of a run whose copies
end has it; a value that does not fit is rejected and changes nothing. -/
theorem tamUri_posted {p : Platform} {memory : Session}
    (tamUri : memory.tamUri.length = teepMaxUriLen)
    (taskUri : memory.taskBuffer.uri.length = teepMaxUriLen) {before : List Command} {ta ta₁ : Ta}
    (run : Run (Step p) (Ta.start memory) before ta) {buffer value : Bytes}
    (string : value = buffer.takeWhile (· ≠ 0)) (sets : Sets p ta buffer ta₁) :
    (∀ after ta₂, Run (Guarded (KeepsCopies p value) (Step p)) ta₁ after ta₂ →
      PostsTo value ta₂) ∧
    (∀ after ta₂, Run (Guarded (KeepsUri p) (Step p)) ta₁ after ta₂ →
      ∀ fuel ta₃, ta₂.session.onGoingTask = false → queryNextBrokerTask p fuel ta₂ = .ok ta₃ →
        ta₃.session.taskBuffer.command = .httpPost →
        (PostsTo value ta₃ ↔ CopyEnds p value ta₂)) ∧
    ∀ (ta : Ta) (fuel : Nat) (buffer : Bytes), buffer.getLast? = some 0 →
      teepMaxUriLen ≤ (buffer.takeWhile (· ≠ 0)).length →
      ∃ result, result ≠ teeSuccess ∧
        invokeCommand p fuel ta (.setDevOption 0 buffer) = .ok (ta, ⟨result, none⟩) := by
  subst string
  have sized := run_sized tamUri taskUri run
  have configured := sets_configured sets sized.tamUri sized.taskUri
  have quiet : PostsTo (buffer.takeWhile (· ≠ 0)) ta₁ := by
    obtain ⟨state, -, rfl⟩ := sets_cases sets
    intro busy
    have task := run_taskMatches run busy
    rw [state] at task
    cases task
  refine ⟨fun after ta₂ => run_postsTo configured quiet, ?_, ?_⟩
  · intro after ta₂ run' fuel ta₃ idle query post
    rw [← query_postsTo (run_configured configured run') idle query post]
    exact ⟨fun posts => posts (query_busy query) post, fun string _ _ => string⟩
  · exact fun ta fuel buffer ended long => setDevOption_rejects ta fuel ended long

/-- Memory in which the two URI fields are not cleared. -/
def dirtyMemory : Session :=
  { blankMemory with
    tamUri := List.replicate teepMaxUriLen 0xFF
    taskBuffer := { blankMemory.taskBuffer with uri := List.replicate teepMaxUriLen 0xFF } }

/-- The longest value that is accepted, and one that is a byte shorter. -/
def longestUri : Bytes := List.replicate 511 0x61
def shorterUri : Bytes := List.replicate 510 0x61

/-- The session on that memory with an accepted value. -/
def dirtySession (value : Bytes) : Ta :=
  (Ta.start dirtyMemory).setTamUri (strncpy false dirtyMemory.tamUri (value ++ [0])
    (teepMaxUriLen - 1))

/-- One query, and the task it hands out. -/
def firstTask (ta : Ta) : Option (Bool × BrokerCommand × Range) :=
  (exec (execStep readmePlatform 0 fun _ command => command = query) ta [query]).map fun ta =>
    (ta.session.onGoingTask, ta.session.taskBuffer.command,
      Memory.cString ta.session.taskBuffer.uri)

theorem keepsUri_query (p : Platform) (ta : Ta) : KeepsUri p ta query := by
  intro buffer same
  cases same

theorem longest_tamUri_not_ended :
    ∃ ta₁ ta₂, Sets readmePlatform (Ta.start dirtyMemory) (longestUri ++ [0]) ta₁ ∧
      Run (Guarded (KeepsUri readmePlatform) (Step readmePlatform)) ta₁ [query] ta₂ ∧
      ¬ PostsTo longestUri ta₂ := by
  have string : (longestUri ++ [0]).takeWhile (· ≠ 0) = longestUri := by decide +kernel
  have sets : Sets readmePlatform (Ta.start dirtyMemory) (longestUri ++ [0])
      (dirtySession longestUri) := by
    have accepted := @sets_accepts readmePlatform (Ta.start dirtyMemory) (longestUri ++ [0]) rfl
      (by decide +kernel) (by decide +kernel)
    rw [string] at accepted
    exact accepted
  have reached : firstTask (dirtySession longestUri) = some (true, .httpPost, none) := by
    decide +kernel
  obtain ⟨ta₂, executed, task⟩ := Option.map_eq_some_iff.mp reached
  obtain ⟨busy, command, uri⟩ : ta₂.session.onGoingTask = true ∧
      ta₂.session.taskBuffer.command = .httpPost ∧
      Memory.cString ta₂.session.taskBuffer.uri = none := by
    simpa only [Prod.mk.injEq] using task
  refine ⟨_, ta₂, sets, (exec_run executed).mono ?_, ?_⟩
  · rintro s command t ⟨rfl, step⟩
    exact ⟨keepsUri_query _ s, step⟩
  · intro posts
    cases uri.symm.trans (posts busy command)

theorem tamUri_posted_shorter :
    ∃ ta₁ ta₂, Sets readmePlatform (Ta.start dirtyMemory) (shorterUri ++ [0]) ta₁ ∧
      Run (Guarded (KeepsCopies readmePlatform shorterUri) (Step readmePlatform)) ta₁ [query] ta₂ ∧
      ta₂.session.taskBuffer.command = .httpPost ∧ PostsTo shorterUri ta₂ := by
  have string : (shorterUri ++ [0]).takeWhile (· ≠ 0) = shorterUri := by decide +kernel
  have sets : Sets readmePlatform (Ta.start dirtyMemory) (shorterUri ++ [0])
      (dirtySession shorterUri) := by
    have accepted := @sets_accepts readmePlatform (Ta.start dirtyMemory) (shorterUri ++ [0]) rfl
      (by decide +kernel) (by decide +kernel)
    rw [string] at accepted
    exact accepted
  have reached : firstTask (dirtySession shorterUri) = some (true, .httpPost, some shorterUri) := by
    decide +kernel
  obtain ⟨ta₂, executed, task⟩ := Option.map_eq_some_iff.mp reached
  have command : ta₂.session.taskBuffer.command = .httpPost :=
    congrArg (fun task => task.2.1) task
  have run : Run (Guarded (KeepsCopies readmePlatform shorterUri) (Step readmePlatform))
      (dirtySession shorterUri) [query] ta₂ := by
    refine (exec_run executed).mono ?_
    rintro s command t ⟨rfl, step⟩
    exact ⟨⟨keepsUri_query _ s, fun _ _ _ => .inr (.inl (by decide +kernel))⟩, step⟩
  have posted := tamUri_posted (by decide +kernel) (by decide +kernel)
    (.nil (Ta.start dirtyMemory)) string.symm sets
  exact ⟨_, ta₂, sets, run, command, posted.1 _ _ run⟩

end TeepDevice.Agent
