import TeepDevice.Tcbor.Context

/-! The SUIT manifest and its parser (teesuit.h, suit-parser.c). The parser
writes into a result the caller owns, so it takes the earlier contents and
returns what it leaves there also when it fails. -/
namespace TeepDevice.Suit
open Tcbor

namespace Label

abbrev delegation : Nat := 1
abbrev authenticationWrapper : Nat := 2
abbrev manifest : Nat := 3

abbrev manifestVersion : Nat := 1
abbrev manifestSequenceNumber : Nat := 2
abbrev common : Nat := 3
abbrev referenceUri : Nat := 4
abbrev dependencyResolution : Nat := 7
abbrev payloadFetch : Nat := 8
abbrev install : Nat := 9
abbrev validate : Nat := 10
abbrev load : Nat := 11
abbrev run : Nat := 12
abbrev text : Nat := 13
abbrev coswid : Nat := 14

abbrev dependencies : Nat := 1
abbrev components : Nat := 2
abbrev commonSequence : Nat := 4

end Label

def componentMax : Nat := 8
def dependencyMax : Nat := 8

structure Digest where
  algorithmId : Int
  bytes : Range
  deriving DecidableEq, Repr

/-- The union of `suit_severable_t` by what was last written into it; `blank`
is the all-zero memory of a fresh slot. -/
inductive SeverableArm where
  | blank
  | digest (d : Digest)
  | body (r : Range)
  deriving DecidableEq, Repr

structure Severable where
  hasValue : Bool
  severed : Bool
  arm : SeverableArm
  deriving DecidableEq, Repr

/-- The digest a partial write starts from. -/
def SeverableArm.asDigest : SeverableArm → Digest
  | .digest d => d
  | _ => ⟨0, none⟩

structure Component where
  idCbor : Range
  deriving DecidableEq, Repr

/-- `suit_common_t`. The parser stores nothing in a dependency, so only their
number is kept; the components are those below `n_components`. -/
structure Common where
  nDependencies : Nat
  components : List Component
  commandSequence : Range
  deriving DecidableEq, Repr

structure Manifest where
  envelopeBstr : Range
  binary : Range
  version : Nat
  sequenceNumber : Nat
  commonBstr : Range
  common : Common
  referenceUri : Range
  dependencyResolution : Severable
  payloadFetch : Severable
  install : Severable
  text : Severable
  coswid : Severable
  validate : Range
  load : Range
  run : Range
  deriving DecidableEq, Repr

def Severable.zero : Severable := ⟨false, false, .blank⟩

/-- A slot as `memset` leaves it. -/
def Manifest.zero : Manifest where
  envelopeBstr := none
  binary := none
  version := 0
  sequenceNumber := 0
  commonBstr := none
  common := ⟨0, [], none⟩
  referenceUri := none
  dependencyResolution := .zero
  payloadFetch := .zero
  install := .zero
  text := .zero
  coswid := .zero
  validate := none
  load := none
  run := none

def matchKey (ctx : Context) (key : Nat) : Bool × Context :=
  match readUint ctx with
  | (some k, after) => if k = key then (true, after) else (false, fail after ctx)
  | (none, after) => (false, fail after ctx)

def readKeyAndUint (ctx : Context) (key : Nat) : Option Nat × Context :=
  match matchKey ctx key with
  | (false, after) => (none, fail after ctx)
  | (true, value) =>
    match readUint value with
    | (some v, after) => (some v, after)
    | (none, after) => (none, fail after ctx)

/-- `read_digest`. The last component is what was written to `*d`, if anything. -/
def readDigest (ctx : Context) (d : Digest) : Bool × Context × Option Digest :=
  match readArray ctx with
  | (none, ctx) => (false, ctx, none)
  | (some array, ctx) =>
    match readInt array with
    | (none, _) => (false, ctx, none)
    | (some id, array) =>
      match readBstr array with
      | (none, _) => (false, ctx, some { d with algorithmId := id })
      | (some bytes, array) =>
        match skipAll array with
        | (false, _) => (false, ctx, some ⟨id, some bytes⟩)
        | (true, array) =>
          match close ctx array with
          | (closed, ctx) => (closed, ctx, some ⟨id, some bytes⟩)

def readSevered (ctx : Context) (ret : Severable) : Bool × Context × Severable :=
  match readBstr ctx with
  | (some body, ctx) => (true, ctx, ⟨true, false, .body (some body)⟩)
  | (none, ctx) =>
    match readDigest ctx ret.arm.asDigest with
    | (true, ctx, written) =>
      (true, ctx, ⟨true, true, .digest (written.getD ret.arm.asDigest)⟩)
    | (false, ctx, none) => (false, ctx, ret)
    | (false, ctx, some d) => (false, ctx, { ret with arm := .digest d })

def readDependency (ctx : Context) : Bool × Context :=
  match readMap ctx with
  | (none, ctx) => (false, ctx)
  | (some map, ctx) =>
    match skipAll map with
    | (false, _) => (false, ctx)
    | (true, map) => close ctx map

def readDependenciesBody : Context × Nat → (Context × Nat) ⊕ (Bool × Context × Nat)
  | (array, n) =>
    if isEndOfContext array then .inr (true, array, n)
    else if n = dependencyMax then .inr (false, array, n)
    else
      match readDependency array with
      | (false, array) => .inr (false, array, n)
      | (true, array) => .inl (array, n + 1)

def readComponentsBody :
    Context × List Component → (Context × List Component) ⊕ (Bool × Context × List Component)
  | (array, components) =>
    if isEndOfContext array then .inr (true, array, components)
    else if components.length = componentMax then .inr (false, array, components)
    else
      match readSubobject array with
      | (none, array) => .inr (false, array, components)
      | (some id, array) => .inl (array, components ++ [⟨some id⟩])

theorem readDependency_length {ctx after : Context} (h : readDependency ctx = (true, after)) :
    after.r.length < ctx.r.length := by
  unfold readDependency at h
  split at h
  · cases h
  · rename_i map ctx' read
    split at h
    · cases h
    · rename_i map' skipped
      have shorter := readMap_length read
      have rest : map'.r.length ≤ map.r.length := skip_length skipped
      rw [close_true h]
      exact Nat.lt_of_le_of_lt rest shorter

theorem readDependenciesBody_decreasing :
    Loop.Decreasing readDependenciesBody (fun st => st.1.r.length) := by
  rintro ⟨array, n⟩ ⟨array', n'⟩ h
  simp only [readDependenciesBody] at h
  split at h
  · cases h
  · split at h
    · cases h
    · split at h
      · cases h
      · rename_i read
        cases h
        exact readDependency_length read

theorem readComponentsBody_decreasing :
    Loop.Decreasing readComponentsBody (fun st => st.1.r.length) := by
  rintro ⟨array, components⟩ ⟨array', components'⟩ h
  simp only [readComponentsBody] at h
  split at h
  · cases h
  · split at h
    · cases h
    · split at h
      · cases h
      · rename_i read
        cases h
        exact readSubobject_length read

/-- The two array loops of `suit_parse_common`. -/
def readDependencies (array : Context) (n : Nat) : Bool × Context × Nat :=
  Loop.eval readDependenciesBody _ readDependenciesBody_decreasing (array, n)

def readComponents (array : Context) (components : List Component) :
    Bool × Context × List Component :=
  Loop.eval readComponentsBody _ readComponentsBody_decreasing (array, components)

theorem readDependencies_length (array : Context) (n : Nat) :
    (readDependencies array n).1 = true →
      (readDependencies array n).2.1.r.length ≤ array.r.length := by
  apply Loop.eval_induct readDependenciesBody_decreasing
    (fun st result => result.1 = true → result.2.1.r.length ≤ st.1.r.length)
  · rintro ⟨s, k⟩ result leave good
    simp only [readDependenciesBody] at leave
    repeat' split at leave
    all_goals cases leave
    · exact Nat.le_refl _
    all_goals cases good
  · rintro ⟨s, k⟩ ⟨s', k'⟩ result pass ih good
    exact Nat.le_trans (ih good) (Nat.le_of_lt (readDependenciesBody_decreasing _ _ pass))

theorem readComponents_length (array : Context) (components : List Component) :
    (readComponents array components).1 = true →
      (readComponents array components).2.1.r.length ≤ array.r.length := by
  apply Loop.eval_induct readComponentsBody_decreasing
    (fun st result => result.1 = true → result.2.1.r.length ≤ st.1.r.length)
  · rintro ⟨s, k⟩ result leave good
    simp only [readComponentsBody] at leave
    repeat' split at leave
    all_goals cases leave
    · exact Nat.le_refl _
    all_goals cases good
  · rintro ⟨s, k⟩ ⟨s', k'⟩ result pass ih good
    exact Nat.le_trans (ih good) (Nat.le_of_lt (readComponentsBody_decreasing _ _ pass))

structure CommonState where
  map : Context
  common : Common
  dependenciesSeen : Bool
  componentsSeen : Bool

/-- The `switch` of `suit_parse_common`; false where the source returns false. -/
def parseCommonField (key : Nat) (st : CommonState) : Bool × CommonState :=
  if key = Label.dependencies then
    if st.dependenciesSeen then (false, st)
    else
      match readArray st.map with
      | (none, map) => (false, { st with map := map })
      | (some array, map) =>
        match readDependencies array st.common.nDependencies with
        | (false, _, n) => (false, { st with common := { st.common with nDependencies := n } })
        | (true, array, n) =>
          match close map array with
          | (closed, map) =>
            (closed, { st with
              map := map, common := { st.common with nDependencies := n },
              dependenciesSeen := true })
  else if key = Label.components then
    if st.componentsSeen then (false, st)
    else
      match readArray st.map with
      | (none, map) => (false, { st with map := map })
      | (some array, map) =>
        match readComponents array st.common.components with
        | (false, _, cs) => (false, { st with common := { st.common with components := cs } })
        | (true, array, cs) =>
          match close map array with
          | (closed, map) =>
            (closed, { st with
              map := map, common := { st.common with components := cs }, componentsSeen := true })
  else if key = Label.commonSequence then
    if st.common.commandSequence.isSome then (false, st)
    else
      match readBstr st.map with
      | (none, map) => (false, { st with map := map })
      | (some sequence, map) =>
        (true, { st with
          map := map, common := { st.common with commandSequence := some sequence } })
  else (false, st)

/-- One pass of the loop of `suit_parse_common`. -/
def parseCommonBody (st : CommonState) : CommonState ⊕ (Bool × CommonState) :=
  if isEndOfContext st.map then .inr (true, st)
  else
    match readAny st.map with
    | (none, map) => .inr (false, { st with map := map })
    | (some key, map) =>
      if key.isTag then .inr (false, { st with map := map })
      else if key.isUint then
        match parseCommonField key.value { st with map := map } with
        | (true, st) => .inl st
        | (false, st) => .inr (false, st)
      else .inr (false, { st with map := map })

theorem parseCommonField_length (key : Nat) (st : CommonState) :
    (parseCommonField key st).1 = true →
      (parseCommonField key st).2.map.r.length ≤ st.map.r.length := by
  unfold parseCommonField
  split
  · split
    · nofun
    · split
      · nofun
      · rename_i array map opened
        have shorter := readArray_length opened
        have rest := readDependencies_length array st.common.nDependencies
        split
        · nofun
        · rename_i array' n loop
          split
          rename_i closed map' closing
          intro good
          cases good
          rw [loop] at rest
          dsimp only
          rw [close_true closing]
          exact Nat.le_trans (rest rfl) (Nat.le_of_lt shorter)
  · split
    · split
      · nofun
      · split
        · nofun
        · rename_i array map opened
          have shorter := readArray_length opened
          have rest := readComponents_length array st.common.components
          split
          · nofun
          · rename_i array' cs loop
            split
            rename_i closed map' closing
            intro good
            cases good
            rw [loop] at rest
            dsimp only
            rw [close_true closing]
            exact Nat.le_trans (rest rfl) (Nat.le_of_lt shorter)
    · split
      · split
        · nofun
        · split
          · nofun
          · rename_i read
            intro _
            exact Nat.le_of_lt (readMatching_length read)
      · nofun

theorem parseCommonBody_decreasing :
    Loop.Decreasing parseCommonBody (fun st => st.map.r.length) := by
  intro st st' h
  unfold parseCommonBody at h
  split at h
  · cases h
  · split at h
    · cases h
    · rename_i key map read
      have shorter := readAny_length read
      split at h
      · cases h
      · split at h
        · have field := parseCommonField_length key.value { st with map := map }
          split at h
          · rename_i next passed
            cases h
            rw [passed] at field
            exact Nat.lt_of_le_of_lt (field rfl) shorter
          · cases h
        · cases h

/-- `suit_parse_common`. What it returns does not depend on the earlier result:
both counts and the sequence are reset before anything is read. -/
def suitParseCommon (commonBstr : Range) : Bool × Common :=
  let reset : Common := ⟨0, [], none⟩
  match readMap (toplevel commonBstr) with
  | (none, _) => (false, reset)
  | (some map, ctx) =>
    match Loop.eval parseCommonBody _ parseCommonBody_decreasing ⟨map, reset, false, false⟩ with
    | (false, st) => (false, st.common)
    | (true, st) => ((close ctx st.map).1, st.common)

/-- A field that must be a byte string; `store` may reject what was read. -/
def bstrField (map : Context) (m : Manifest) (store : Bytes → Bool × Manifest) :
    Bool × Context × Manifest :=
  match readBstr map with
  | (none, map) => (false, map, m)
  | (some b, map) => ((store b).1, map, (store b).2)

def severedField (map : Context) (field : Severable) (store : Severable → Manifest) :
    Bool × Context × Manifest :=
  match readSevered map field with
  | (ok, map, s) => (ok, map, store s)

def skippedField (map : Context) (m : Manifest) : Bool × Context × Manifest :=
  match skip map 1 with
  | (ok, map) => (ok, map, m)

/-- The `switch` of `suit_manifest_parse`. -/
def parseManifestField (key : Nat) (map : Context) (m : Manifest) : Bool × Context × Manifest :=
  if key = Label.manifestVersion ∨ key = Label.manifestSequenceNumber then (false, map, m)
  else if key = Label.common then
    bstrField map m fun b => ((suitParseCommon (some b)).1,
      { m with commonBstr := some b, common := (suitParseCommon (some b)).2 })
  else if key = Label.referenceUri then
    bstrField map m fun b => (true, { m with referenceUri := some b })
  else if key = Label.dependencyResolution then
    severedField map m.dependencyResolution fun s => { m with dependencyResolution := s }
  else if key = Label.payloadFetch then
    severedField map m.payloadFetch fun s => { m with payloadFetch := s }
  else if key = Label.install then severedField map m.install fun s => { m with install := s }
  else if key = Label.text then severedField map m.text fun s => { m with text := s }
  else if key = Label.coswid then severedField map m.coswid fun s => { m with coswid := s }
  else if key = Label.validate then bstrField map m fun b => (true, { m with validate := some b })
  else if key = Label.load then bstrField map m fun b => (true, { m with load := some b })
  else if key = Label.run then bstrField map m fun b => (true, { m with run := some b })
  else skippedField map m

/-- One pass of the loop of `suit_manifest_parse`. -/
def parseManifestBody : Context × Manifest → (Context × Manifest) ⊕ (Bool × Context × Manifest)
  | (map, m) =>
    if isEndOfContext map then .inr (true, map, m)
    else
      match readAny map with
      | (none, map) => .inr (false, map, m)
      | (some key, map) =>
        if key.isTag then .inr (false, map, m)
        else if key.isUint then
          match parseManifestField key.value map m with
          | (true, map, m) => .inl (map, m)
          | (false, map, m) => .inr (false, map, m)
        else
          match skippedField map m with
          | (true, map, m) => .inl (map, m)
          | (false, map, m) => .inr (false, map, m)

theorem readDigest_length {ctx after : Context} {d : Digest} {written : Option Digest}
    (h : readDigest ctx d = (true, after, written)) : after.r.length ≤ ctx.r.length := by
  unfold readDigest at h
  split at h
  · cases h
  · rename_i array ctx' opened
    have one := readArray_length opened
    split at h
    · cases h
    · rename_i id array' read
      have two := readInt_length read
      split at h
      · cases h
      · rename_i bytes array'' read'
        have three := readMatching_length read'
        split at h
        · cases h
        · rename_i last skipped
          have four := skip_length skipped
          split at h
          rename_i closed ctx'' closing
          obtain ⟨rfl, rest⟩ := Prod.mk.inj h
          obtain ⟨rfl, -⟩ := Prod.mk.inj rest
          rw [close_true closing]
          omega

theorem readSevered_length {ctx after : Context} {ret s : Severable}
    (h : readSevered ctx ret = (true, after, s)) : after.r.length ≤ ctx.r.length := by
  unfold readSevered at h
  split at h
  · rename_i read
    cases h
    exact Nat.le_of_lt (readMatching_length read)
  · rename_i ctx' failed
    have place := (readMatching_none failed).1
    split at h
    · rename_i read
      cases h
      exact place ▸ readDigest_length read
    · cases h
    · cases h

/-- A field that was read leaves the cursor at or after where it started. -/
def Advances (map : Context) (result : Bool × Context × Manifest) : Prop :=
  result.1 = true → result.2.1.r.length ≤ map.r.length

section Advances
variable (map : Context) (m : Manifest)

theorem bstrField_advances (store : Bytes → Bool × Manifest) :
    Advances map (bstrField map m store) := by
  intro good
  unfold bstrField at good ⊢
  split
  · rename_i failed
    simp [failed] at good
  · rename_i read
    exact Nat.le_of_lt (readMatching_length read)

theorem severedField_advances (field : Severable) (store : Severable → Manifest) :
    Advances map (severedField map field store) := by
  intro good
  unfold severedField at good ⊢
  split
  rename_i ok after s read
  simp only [read] at good
  subst good
  exact readSevered_length read

theorem skippedField_advances : Advances map (skippedField map m) := by
  intro good
  unfold skippedField at good ⊢
  split
  rename_i ok after passed
  simp only [passed] at good
  subst good
  exact skip_length passed

theorem parseManifestField_advances (key : Nat) :
    Advances map (parseManifestField key map m) := by
  unfold parseManifestField
  repeat' apply iteInduction (motive := Advances map) <;> intro
  · intro good
    cases good
  all_goals
    first
    | exact bstrField_advances map m _
    | exact severedField_advances map _ _
    | exact skippedField_advances map m

end Advances

theorem parseManifestBody_decreasing :
    Loop.Decreasing parseManifestBody (fun st => st.1.r.length) := by
  rintro ⟨map, m⟩ ⟨map', m'⟩ h
  simp only [parseManifestBody] at h
  split at h
  · cases h
  · split at h
    · cases h
    · rename_i key rest read
      have shorter := readAny_length read
      split at h
      · cases h
      · split at h
        · split at h
          · rename_i field
            cases h
            have advanced := parseManifestField_advances rest m key.value
            rw [field] at advanced
            exact Nat.lt_of_le_of_lt (advanced rfl) shorter
          · cases h
        · split at h
          · rename_i field
            cases h
            have advanced := skippedField_advances rest m
            rw [field] at advanced
            exact Nat.lt_of_le_of_lt (advanced rfl) shorter
          · cases h

/-- The loop over the fields, then the two checks after it. -/
def parseManifestFields (ctx map : Context) (m : Manifest) : Bool × Manifest :=
  match Loop.eval parseManifestBody _ parseManifestBody_decreasing (map, m) with
  | (false, _, m) => (false, m)
  | (true, map, m) => ((close ctx map).1 && m.commonBstr.isSome, m)

/-- `suit_manifest_parse`. `common`, `version` and `sequence_number` keep the
earlier contents until they are read; so does every union behind `has_value`. -/
def suitManifestParse (manifestBstr : Range) (ret : Manifest) : Bool × Manifest :=
  let m : Manifest := { ret with
    envelopeBstr := none
    binary := manifestBstr
    commonBstr := none
    referenceUri := none
    dependencyResolution := { ret.dependencyResolution with hasValue := false }
    payloadFetch := { ret.payloadFetch with hasValue := false }
    install := { ret.install with hasValue := false }
    text := { ret.text with hasValue := false }
    coswid := { ret.coswid with hasValue := false }
    validate := none
    load := none
    run := none }
  match readMap (toplevel manifestBstr) with
  | (none, _) => (false, m)
  | (some map, ctx) =>
    match readKeyAndUint map Label.manifestVersion with
    | (none, _) => (false, m)
    | (some version, map) =>
      let m := { m with version := version }
      if version ≠ 1 then (false, m)
      else
        match readKeyAndUint map Label.manifestSequenceNumber with
        | (none, _) => (false, m)
        | (some number, map) => parseManifestFields ctx map { m with sequenceNumber := number }

end TeepDevice.Suit
