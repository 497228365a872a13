import TeepDevice.Agent.Storage

/-! `install_ta` on a file system (ta-store.c) and the files that a run of the agent
leaves. The builds open a file in different ways: on the PC it is emptied first, under
Keystone and in SGX what lies behind a shorter image stays. -/
namespace TeepDevice.Agent
open Tcbor Suit Teep Transition

abbrev Files : Type := Bytes → Option Bytes

/-- Whether a file opens for writing, and how many bytes of a write it takes. -/
structure FileSystem where
  opens : Files → Bytes → Bool
  takes : Files → Bytes → Bytes → Nat

/-- A write to the front of a file, of which the rest stays. -/
def overlay (image old : Bytes) : Bytes := image ++ old.drop image.length

theorem overlay_eq_iff (image old : Bytes) : overlay image old = image ↔ old.length ≤ image.length := by
  rw [overlay, List.append_right_eq_self, List.drop_eq_nil_iff]

inductive Build where
  | pc | keystone | sgx
  deriving DecidableEq, Repr

section Install
variable (fs : FileSystem)

/-- Opening or creating a file, writing the image from its start and closing it. -/
def writeFile (truncates : Bool) (files : Files) (filename image : Bytes) : Bool × Files :=
  if !fs.opens files filename then (false, files)
  else
    let old := if truncates then [] else (files filename).getD []
    let n := min (fs.takes files filename image) image.length
    (n == image.length, Function.update files filename (some (overlay (image.take n) old)))

/-- `fopen` with `"w+"`. -/
def installTaPc : Files → Bytes → Bytes → Bool × Files := writeFile fs true

/-- `O_CREAT | O_WRONLY`. -/
def installTaKeystone : Files → Bytes → Bytes → Bool × Files := writeFile fs false

/-- `O_RDWR | O_CREAT`. -/
def installTaSgx : Files → Bytes → Bytes → Bool × Files := writeFile fs false

def installTa : Build → Files → Bytes → Bytes → Bool × Files
  | .pc => installTaPc fs
  | .keystone => installTaKeystone fs
  | .sgx => installTaSgx fs

/-- The files after the components of a history were stored. -/
def filesAfter (build : Build) (disk : Files) (stores : List Stored) : Files :=
  stores.foldl (fun files stored => (installTa fs build files stored.filename stored.image).2) disk

/-- The storage that a build has on a disk. -/
def onDisk (build : Build) (disk : Files) : InstallTa := fun history filename image =>
  (installTa fs build (filesAfter fs build disk history) filename image).1

end Install

/-- A history in which each store has the answer that storage gave then. -/
inductive Truthful (installTa : InstallTa) : List Stored → Prop where
  | nil : Truthful installTa []
  | snoc {before : List Stored} (earlier : Truthful installTa before) (filename image : Bytes) :
    Truthful installTa (before ++ [⟨filename, image, installTa before filename image⟩])

section Histories
variable {p : Platform} {memory : Session} {commands : List Command} {ta ta' : Ta}

/-- A session with such a history. -/
def Recording (installTa : InstallTa) (user : AgentUser) : Prop := Truthful installTa user.stores

theorem storeComponent_records {installTa : InstallTa} {user : AgentUser}
    (records : Recording installTa user) (path : ComponentPath) (image : Bytes) :
    Recording installTa (storeComponent installTa user path image).2 :=
  Truthful.snoc records path.filename image

theorem suitCallbacks_record (beyond : Beyond) (installTa : InstallTa) :
    KeepsUser (Recording installTa) (suitCallbacks beyond installTa) := by
  constructor
  · intro user object body records
    simp only [suitCallbacks, store]
    split
    · split
      · exact records
      · exact storeComponent_records records _ _
    · exact records
  · intro user object uri records
    simp only [suitCallbacks, fetchAndStore]
    split
    · split
      · exact records
      · exact records
    · exact records

/-- The session of a TA records what its storage answers. -/
def Ta.Records (installTa : InstallTa) (ta : Ta) : Prop :=
  Recording installTa ta.session.suitRunner.effects.user

theorem query_records {fuel : Nat} (records : ta.Records p.installTa)
    (idle : ta.session.onGoingTask = false) (query : queryNextBrokerTask p fuel ta = .ok ta') :
    ta'.Records p.installTa := by
  apply query_rule (Ta.Records p.installTa) (Ta.Records p.installTa) _ _ records idle query
  · intro s next holds _ pass
    cases pass with
    | begins state => exact holds
    | starts state started => exact suitRunnerInit_keeps holds started
    | runs state ran => exact suitRunnerRun_keeps (suitCallbacks_record _ _) holds ran
  · intro s next holds _ pass
    obtain ⟨task, history, rfl⟩ := queryBody_leaves pass
    exact holds

theorem download_records (records : ta.Records p.installTa) (buffer : Bytes) :
    (handleComponentDownload p ta buffer).1.Records p.installTa := by
  unfold handleComponentDownload
  split
  · exact records
  · apply suitRunnerResume_keeps
    exact storeComponent_records records _ _

theorem step_records {command : Command} (records : ta.Records p.installTa)
    (step : Step p ta command ta') : ta'.Records p.installTa := by
  cases step_outcome step with
  | unchanged => exact records
  | configured => exact records
  | queried idle query => exact query_records records idle query
  | downloaded busy fetch => exact download_records records _
  | replied busy post outcome =>
    cases outcome with
    | ended => exact records
    | afterError => exact records
    | unparsed => exact records
    | refused => exact records
    | requested => exact records
    | notStored => exact records
    | updated => exact records

/-- The agent records of each store what storage answered. -/
theorem run_truthful (run : Run (Step p) (Ta.start memory) commands ta) :
    Truthful p.installTa ta.stores :=
  run.invariant (Ta.Records p.installTa) (fun _ _ _ records step => step_records records step) .nil

/-- The answer in the record is the one of the storage at that time. -/
theorem Truthful.answer {installTa : InstallTa} {stores before after : List Stored}
    {stored : Stored} (truthful : Truthful installTa stores)
    (split : stores = before ++ stored :: after) :
    Truthful installTa before ∧ stored.ok = installTa before stored.filename stored.image := by
  induction truthful generalizing after with
  | nil => cases before with
    | nil => cases split
    | cons first rest => cases split
  | @snoc earlier whole filename image ih =>
    rcases List.eq_nil_or_concat after with rfl | ⟨front, last, rfl⟩
    · obtain ⟨rfl, same⟩ := List.append_inj' split rfl
      cases same
      exact ⟨whole, rfl⟩
    · rw [List.concat_eq_append, ← List.cons_append, ← List.append_assoc] at split
      obtain ⟨rfl, -⟩ := List.append_inj' split rfl
      exact ih rfl

end Histories

section OnDisk
variable {fs : FileSystem} {build : Build} {disk files : Files} {filename other image : Bytes}
  {before after stores : List Stored}

theorem writeFile_other (truncates : Bool) (ne : other ≠ filename) :
    (writeFile fs truncates files filename image).2 other = files other := by
  unfold writeFile
  split
  · rfl
  · exact Function.update_of_ne ne _ _

/-- A write that is whole leaves the image, and behind it what the opening left. -/
theorem writeFile_whole {truncates : Bool}
    (whole : (writeFile fs truncates files filename image).1 = true) :
    (writeFile fs truncates files filename image).2 filename =
      some (overlay image (if truncates then [] else (files filename).getD [])) := by
  unfold writeFile at whole ⊢
  split at whole
  · cases whole
  · rename_i opens
    have length : min (fs.takes files filename image) image.length = image.length :=
      beq_iff_eq.mp whole
    rw [if_neg opens]
    simp only [Function.update_self, length, List.take_length]

def Build.truncates : Build → Bool
  | .pc => true
  | .keystone => false
  | .sgx => false

theorem installTa_eq (build : Build) : installTa fs build = writeFile fs build.truncates := by
  cases build with
  | pc => rfl
  | keystone => rfl
  | sgx => rfl

theorem filesAfter_append (disk : Files) (before after : List Stored) :
    filesAfter fs build disk (before ++ after) =
      filesAfter fs build (filesAfter fs build disk before) after :=
  List.foldl_append

/-- Files that nothing is stored to stay. -/
theorem filesAfter_other (elsewhere : ∀ stored ∈ stores, stored.filename ≠ filename) :
    filesAfter fs build disk stores filename = disk filename := by
  induction stores generalizing disk with
  | nil => rfl
  | cons first rest ih =>
    have later := @ih (installTa fs build disk first.filename first.image).2
      fun stored member => elsewhere stored (List.mem_cons_of_mem _ member)
    have here := elsewhere first List.mem_cons_self
    rw [installTa_eq] at later
    calc filesAfter fs build disk (first :: rest) filename
        = (writeFile fs build.truncates disk first.filename first.image).2 filename := by
          rw [← later, ← installTa_eq]
          rfl
      _ = disk filename := writeFile_other _ here.symm

/-- The length of a file that all stores so far reached. -/
def reached (filename : Bytes) (initial : Nat) (stores : List Stored) : Nat :=
  stores.foldl (fun n stored =>
    if stored.filename = filename then max n stored.image.length else n) initial

theorem reached_le_iff {initial bound : Nat} :
    reached filename initial stores ≤ bound ↔ initial ≤ bound ∧
      ∀ stored ∈ stores, stored.filename = filename → stored.image.length ≤ bound := by
  induction stores generalizing initial with
  | nil => exact ⟨fun le => ⟨le, nofun⟩, fun h => h.1⟩
  | cons first rest ih =>
    have unfolded : reached filename initial (first :: rest) = reached filename
        (if first.filename = filename then max initial first.image.length else initial) rest := rfl
    rw [unfolded, ih, List.forall_mem_cons]
    split
    · rename_i same
      rw [Nat.max_le]
      exact ⟨fun ⟨⟨le, here⟩, rest⟩ => ⟨le, fun _ => here, rest⟩,
        fun ⟨le, here, rest⟩ => ⟨⟨le, here same⟩, rest⟩⟩
    · rename_i different
      exact ⟨fun ⟨le, rest⟩ => ⟨le, fun same => absurd same different, rest⟩,
        fun ⟨le, _, rest⟩ => ⟨le, rest⟩⟩

theorem overlay_length (image old : Bytes) :
    (overlay image old).length = max old.length image.length := by
  rw [overlay, List.length_append, List.length_drop]
  omega

theorem filesAfter_snoc (disk : Files) (before : List Stored) (stored : Stored) :
    filesAfter fs build disk (before ++ [stored]) =
      (writeFile fs build.truncates (filesAfter fs build disk before) stored.filename
        stored.image).2 := by
  rw [filesAfter_append, ← installTa_eq]
  rfl

/-- A store that was whole leaves its image over what the build left of the file. -/
theorem filesAfter_whole (truthful : Truthful (onDisk fs build disk) stores) {stored : Stored}
    (split : stores = before ++ stored :: after) (ok : stored.ok = true)
    (last : ∀ later ∈ after, later.filename ≠ stored.filename) :
    filesAfter fs build disk stores stored.filename =
      some (overlay stored.image (if build.truncates then []
        else (filesAfter fs build disk before stored.filename).getD [])) := by
  have answered := (truthful.answer split).2
  rw [ok, onDisk, installTa_eq] at answered
  have whole := writeFile_whole answered.symm
  rw [split, ← List.singleton_append, ← List.append_assoc, filesAfter_append,
    filesAfter_other last, filesAfter_snoc]
  exact whole

theorem filesAfter_length (untruncated : build.truncates = false)
    (truthful : Truthful (onDisk fs build disk) stores)
    (ok : ∀ stored ∈ stores, stored.filename = filename → stored.ok = true) :
    ((filesAfter fs build disk stores filename).getD []).length =
      reached filename ((disk filename).getD []).length stores := by
  induction truthful with
  | nil => rfl
  | @snoc before earlier name image ih =>
    have sofar := ih fun stored member => ok stored (List.mem_append_left _ member)
    have whole := ok _ (List.mem_append_right before List.mem_cons_self)
    have grown (initial : Nat) : reached filename initial
        (before ++ [⟨name, image, onDisk fs build disk before name image⟩]) =
        if name = filename then max (reached filename initial before) image.length
        else reached filename initial before := List.foldl_append
    rw [grown, ← sofar, filesAfter_snoc]
    by_cases same : name = filename
    · subst same
      have answered := whole rfl
      simp only [onDisk, installTa_eq] at answered
      rw [writeFile_whole answered, untruncated, if_pos rfl]
      exact overlay_length _ _
    · rw [if_neg same, writeFile_other _ (Ne.symm same)]

variable {p : Platform} {memory : Session} {commands : List Command} {ta : Ta}

/-- The session of README.md on the disk of a device. -/
def diskPlatform (build : Build) (disk : Files) : Platform :=
  { readmePlatform with
    installTa := onDisk ⟨fun _ _ => true, fun _ _ image => image.length⟩ build disk }

end OnDisk

end TeepDevice.Agent
