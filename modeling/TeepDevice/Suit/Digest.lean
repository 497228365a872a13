import TeepDevice.Suit.Manifest
import TeepDevice.Tcbor.Pairs

/-! The grammar of digests and severable members (`read_digest`, `read_severed`). -/
namespace TeepDevice.Suit
open Tcbor

/-- An untagged array whose first two elements are the algorithm and the bytes. -/
def DigestItem (item : Bytes) (algorithm : Int) (bytes : Bytes) : Prop :=
  ∃ head any first second more n, Head head any ∧ any.isArray = true ∧ any.value = n + 2 ∧
    intOf first = some algorithm ∧ bstrOf second = some bytes ∧ Sequence n more ∧
    item = head ++ (first ++ (second ++ more))

/-- The member itself in a byte string, or the digest it was severed to. -/
def SeverableItem (item : Bytes) (s : Severable) : Prop :=
  (∃ body, bstrOf item = some body ∧ s = ⟨true, false, .body (some body)⟩) ∨
    ∃ algorithm bytes, DigestItem item algorithm bytes ∧
      s = ⟨true, true, .digest ⟨algorithm, some bytes⟩⟩

theorem DigestItem.item {item bytes : Bytes} {algorithm : Int}
    (digest : DigestItem item algorithm bytes) : Item item := by
  obtain ⟨head, any, first, second, more, n, read, array, count, int, bstr, rest, rfl⟩ := digest
  refine (item_iff).mpr ⟨head, any, _, read, ?_, rfl⟩
  rw [children_of_isArray array, count, Nat.add_comm]
  have two := ((sequence_one).mpr (intOf_item int)).append ((sequence_one).mpr (bstrOf_item bstr))
  simpa only [List.append_assoc] using two.append rest

theorem DigestItem.not_bstr {item bytes body : Bytes} {algorithm : Int}
    (digest : DigestItem item algorithm bytes) : bstrOf item ≠ some body := by
  intro bstr
  obtain ⟨head, any, first, second, more, n, read, array, -, -, -, -, same⟩ := digest
  obtain ⟨any', read', isBstr, -⟩ := (bstrOf_eq_some_iff).mp bstr
  have both : head ++ (first ++ (second ++ more)) = item ++ [] := by rw [same, List.append_nil]
  obtain ⟨rfl, -⟩ := read.unique read' both
  simp only [Any.isArray, Any.isBstr, beq_iff_eq] at array isBstr
  omega

theorem SeverableItem.item {item : Bytes} {s : Severable} (severable : SeverableItem item s) :
    Item item := by
  rcases severable with ⟨body, bstr, -⟩ | ⟨algorithm, bytes, digest, -⟩
  · exact bstrOf_item bstr
  · exact digest.item

section Reading
variable {ctx after : Context} {n : Nat}

theorem readDigest_iff {d : Digest} {written : Option Digest} (left : Remaining ctx n)
    (short : ctx.r.length < 2 ^ 63) :
    readDigest ctx d = (true, after, written) ↔
      0 < n ∧ ∃ item algorithm bytes, DigestItem item algorithm bytes ∧
        ctx.r = item ++ after.r ∧ after = ctx.advance after.r ∧
        written = some ⟨algorithm, some bytes⟩ := by
  unfold readDigest
  constructor
  · intro h
    split at h
    · cases h
    rename_i array ctx' opened
    obtain ⟨some, head, any, read, isArray, same, behind, rfl⟩ := (readArray_iff left).mp opened
    have left₀ := remaining_openContext ctx' read.value_lt
    split at h
    · cases h
    rename_i algorithm array₁ readInt_eq
    obtain ⟨one, first, int, same₁, behind₁⟩ := (readInt_intOf left₀).mp readInt_eq
    have left₁ := left₀.behind one behind₁
    split at h
    · cases h
    rename_i bytes array₂ readBstr_eq
    obtain ⟨two, second, bstr, same₂, behind₂⟩ := (readBstr_bstrOf left₁).mp readBstr_eq
    have left₂ := left₁.behind two behind₂
    simp only [openContext_r] at same₁
    have whole : ctx.r = head ++ (first ++ (second ++ array₂.r)) := by rw [same, same₁, same₂]
    split at h
    · cases h
    rename_i array₃ skipped
    have short₂ : array₂.r.length < 2 ^ 63 := by
      simp only [whole, List.length_append] at short
      omega
    obtain ⟨more, rest, same₃, behind₃⟩ := (skipAll_iff left₂ short₂).mp skipped
    have left₃ : Remaining array₃ 0 := by
      rw [behind₃]
      exact remaining_zero rfl left₂.2
    split at h
    rename_i closed ctx'' closing
    obtain ⟨rfl, rest'⟩ := Prod.mk.inj h
    obtain ⟨rfl, rfl⟩ := Prod.mk.inj rest'
    obtain ⟨-, ends⟩ := (close_iff left₃).mp closing
    refine ⟨some, head ++ (first ++ (second ++ more)), algorithm, bytes,
      ⟨head, any, first, second, more, any.value - 1 - 1, read, isArray, by omega, int, bstr,
        rest, rfl⟩, ?_, ?_, rfl⟩
    · rw [whole, same₃, ends]
      simp only [List.append_assoc]
    · rw [ends, behind]
      rfl
  · rintro ⟨some, item, algorithm, bytes,
      ⟨head, any, first, second, more, k, read, isArray, size, int, bstr, rest, rfl⟩,
      same, behind, rfl⟩
    generalize after.r = t at same behind
    subst behind
    simp only [List.append_assoc] at same
    have short₂ : (more ++ t).length < 2 ^ 63 := by
      rw [same] at short
      simp only [List.length_append] at short ⊢
      omega
    have opened := readArray_at left some read isArray same
    have left₀ := remaining_openContext (ctx.advance (first ++ (second ++ (more ++ t))))
      read.value_lt
    have readInt_eq := readInt_at left₀ (by omega) int rfl
    have left₁ := left₀.next size (second ++ (more ++ t))
    have readBstr_eq := readBstr_at left₁ (by omega) bstr rfl
    have left₂ := left₁.next rfl (more ++ t)
    obtain ⟨array₃, skipped, ends, left₃⟩ := skipAll_at left₂ short₂ rest rfl
    simp only [opened, readInt_eq, readBstr_eq, skipped, close_at left₃, ends]
    rfl

theorem readSevered_iff {ret s : Severable} (left : Remaining ctx n)
    (short : ctx.r.length < 2 ^ 63) :
    readSevered ctx ret = (true, after, s) ↔
      0 < n ∧ ∃ item, SeverableItem item s ∧ ctx.r = item ++ after.r ∧
        after = ctx.advance after.r := by
  unfold readSevered
  constructor
  · intro h
    split at h
    · rename_i body next read
      cases h
      obtain ⟨some, item, bstr, same, behind⟩ := (readBstr_bstrOf left).mp read
      exact ⟨some, item, .inl ⟨body, bstr, rfl⟩, same, behind⟩
    · rename_i failed first
      have place : SamePlace failed ctx := readMatching_none first
      have short' : failed.r.length < 2 ^ 63 := by rwa [place.1]
      split at h
      · rename_i next written read
        cases h
        obtain ⟨some, item, algorithm, bytes, digest, same, behind, rfl⟩ :=
          (readDigest_iff (place.remaining left) short').mp read
        refine ⟨some, item, .inr ⟨algorithm, bytes, digest, rfl⟩, place.1 ▸ same, ?_⟩
        rw [← place.advance]
        exact behind
      · cases h
      · cases h
  · rintro ⟨some, item, severable, same, behind⟩
    rcases severable with ⟨body, bstr, rfl⟩ | ⟨algorithm, bytes, digest, rfl⟩
    · have read : readBstr ctx = (.some body, after) :=
        (readBstr_bstrOf left).mpr ⟨some, item, bstr, same, behind⟩
      simp only [read]
    · cases first : readBstr ctx with
      | mk found failed =>
        cases found with
        | some body =>
          obtain ⟨-, item', bstr, same', -⟩ := (readBstr_bstrOf left).mp first
          obtain ⟨rfl, -⟩ := digest.item.unique (bstrOf_item bstr) (same.symm.trans same')
          exact absurd bstr digest.not_bstr
        | none =>
          have place : SamePlace failed ctx := readMatching_none first
          have short' : failed.r.length < 2 ^ 63 := by rwa [place.1]
          have read : readDigest failed ret.arm.asDigest =
              (true, after, .some ⟨algorithm, .some bytes⟩) :=
            (readDigest_iff (place.remaining left) short').mpr
              ⟨some, item, algorithm, bytes, digest, place.1.trans same,
                behind.trans (place.advance _).symm, rfl⟩
          simp only [read, Option.getD_some]

end Reading

end TeepDevice.Suit
