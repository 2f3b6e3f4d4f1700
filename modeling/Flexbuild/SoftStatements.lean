import Flexbuild.SoftWindow
import Flexbuild.SoftChecksum

/-! The code of a whole statement: that of at most one checksum, whose operands have none, and behind it the loads of
the fields outside of it. -/
namespace Flexbuild.SoftCode
open SoftIr (Word CObject CENode)

variable {c c' : CCode} {e left right initial offset size : CENode} {reg : Option CReg} {concat : Bool}
  {code : List CInstruction} {r : CReg}

section Nested

theorem usedAll (used : c.gpr2IsUsed 5 5 = true) : c.gpr2IsUsed 0 7 = true := by
  have every : ∀ g : BitVec 8, g &&& gpr2Bits 5 5 ≠ 0 → g &&& gpr2Bits 0 7 ≠ 0 := by decide
  simp only [CCode.gpr2IsUsed, decide_eq_true_eq] at *
  exact every _ used

theorem sameAfter (none : checksums e = []) (parsed : Parsed e)
    (made : processExpression e reg concat c = some (code, r, c')) : Loads true code e ∧ c' = c := by
  have all := processed e made parsed ⟨.inl none, .inl rfl⟩
  rwa [afterwardsEmpty none] at all

def Refuses (e : CENode) : Prop := ∀ {reg concat c code r c'}, processExpression e reg concat c = some (code, r, c') →
  Parsed e → c.chksumStored = false → c.gpr2IsUsed 5 5 = true → checksums e = []

theorem noneInside (e : CENode) : Refuses e := by
  induction e with
  | objRef _ | intConst _ | monadic _ _ _ =>
    intro reg concat c code r c' made
    first | exact fun _ _ _ => rfl | cases made
  | dyadic type left right leftNone rightNone =>
    intro reg concat c code r c' made ⟨assign, parsedLeft, parsedRight⟩ fresh used
    by_cases checksum : type = .checksum
    · subst checksum
      match right, made with
      | .dyadic kind offset size, made =>
        change processChecksum _ _ _ _ _ _ = _ at made
        unfold processChecksum CCode.getAndAllocateGPR2 at made
        rw [if_neg (by simp [fresh]), if_pos used] at made
        cases made
    · rw [checksumsSides checksum]
      cases operated assign checksum made with
      | concat kind first second =>
        have none := leftNone first parsedLeft fresh used
        obtain ⟨_, rfl⟩ := sameAfter none parsedLeft first
        rw [none, rightNone second parsedRight fresh used]
        rfl
      | immediate value first op =>
        rw [leftNone first parsedLeft fresh used, (constantPlain (rightIntConstant value)).1]
        rfl
      | plain sides light first second op =>
        obtain ⟨refusesA, refusesB⟩ := @eachSide _ _ Refuses _ _ sides @leftNone @rightNone
        obtain ⟨parsedA, parsedB⟩ := eachSide sides parsedLeft parsedRight
        have none := refusesA first parsedA fresh used
        obtain ⟨_, rfl⟩ := sameAfter none parsedA first
        exact (sidesEmpty sides).mpr ⟨none, refusesB second parsedB fresh used⟩
      | spilled sides first room second op =>
        obtain ⟨refusesA, refusesB⟩ := @eachSide _ _ Refuses _ _ sides @leftNone @rightNone
        obtain ⟨parsedA, parsedB⟩ := eachSide sides parsedLeft parsedRight
        obtain ⟨_, rfl⟩ := sameAfter (refusesA first parsedA fresh used) parsedA first
        have unused := (allocateAll room).1
        rw [usedAll used] at unused
        cases unused

theorem heavy (some_ : checksums e ≠ []) : 3 ≤ weight e := by
  induction e with
  | objRef _ | intConst _ => exact absurd rfl some_
  | monadic type node later => exact later some_
  | dyadic type left right leftHeavy rightHeavy =>
    by_cases checksum : type = .checksum
    · subst checksum
      exact Nat.le_refl 3
    · have unfolded : weight (.dyadic type left right) = if (rightInt type right).isSome then weight left
          else if weight left = weight right then weight left + 1 else max (weight left) (weight right) := by
        cases type <;> first | rfl | exact absurd rfl checksum
      rw [checksumsSides checksum, Ne, List.append_eq_nil_iff, not_and_or] at some_
      rw [unfolded]
      split
      · next value =>
        obtain ⟨v, isV⟩ := Option.isSome_iff_exists.mp value
        exact leftHeavy (some_.resolve_right (not_not.mpr (constantPlain (rightIntConstant isV)).1))
      · rcases some_ with inLeft | inRight
        · have := leftHeavy inLeft
          split <;> omega
        · have := rightHeavy inRight
          split <;> omega

end Nested

section Checksums

def CCode.busy (c : CCode) : CCode :=
  { c with gpr2Used := c.gpr2Used ||| gpr2Bits 5 5 ||| gpr2Bits 6 7, uniqueName := c.uniqueName + 5 }

inductive ChecksumCode (initial offset size : CENode) (c : CCode) : List CInstruction → Prop
  | made {oc sc ic : List CInstruction} {sr ir : CReg}
      (ofOffset : processOffset offset (processExpression offset none false) c.busy = some (oc, c.busy))
      (ofSize : processExpression size none false c.busy = some (sc, sr, c.busy))
      (ofInitial : processExpression initial none false c.busy = some (ic, ir, c.busy)) :
      ChecksumCode initial offset size c
        (oc ++ sc ++ [storeWr (gpr2Object 5 5) sr] ++ ic ++ [storeWr (gpr2Object 6 7) ir] ++ loop c.uniqueName)

theorem busyUsed : c.busy.gpr2IsUsed 5 5 = true := by
  have every : ∀ g : BitVec 8, (g ||| gpr2Bits 5 5 ||| gpr2Bits 6 7) &&& gpr2Bits 5 5 ≠ 0 := by decide
  simp only [CCode.gpr2IsUsed, decide_eq_true_eq]
  exact every _

theorem operandMade (parsed : Parsed e) (fresh : c.chksumStored = false) (used : c.gpr2IsUsed 5 5 = true)
    (made : processExpression e reg concat c = some (code, r, c')) : checksums e = [] ∧ Loads false code e ∧ c' = c := by
  have none := noneInside e made parsed fresh used
  have ready : Ready false e c := ⟨.inl none, .inr ⟨usedAll used, none⟩⟩
  have all := processed e made parsed ready
  rw [afterwardsEmpty none] at all
  exact ⟨none, all⟩

theorem offsetMade (parsed : Parsed e) (fresh : c.chksumStored = false) (used : c.gpr2IsUsed 5 5 = true)
    (made : processOffset e (processExpression e none false) c = some (code, c')) : checksums e = [] ∧ c' = c := by
  unfold processOffset at made
  split at made
  · next zero =>
    cases made
    exact ⟨(constantPlain zero).1, rfl⟩
  · obtain ⟨⟨oc, reg, c₁⟩, first, parts⟩ := Option.map_eq_some_iff.mp made
    cases parts
    obtain ⟨none, _, same⟩ := operandMade parsed fresh used first
    exact ⟨none, same⟩

theorem checksumMade (fresh : c.chksumStored = false) (parsedInitial : Parsed initial) (parsedOffset : Parsed offset)
    (parsedSize : Parsed size)
    (made : processChecksum offset (processExpression initial none false) (processExpression offset none false)
      (processExpression size none false) reg c = some (code, r, c')) :
    (checksums initial = [] ∧ checksums offset = [] ∧ checksums size = []) ∧ r = .wr0 ∧
      c' = { c with uniqueName := c.uniqueName + 5 } ∧ ChecksumCode initial offset size c code := by
  unfold processChecksum at made
  rw [if_neg (by simp [fresh])] at made
  simp only [bind, Option.bind_eq_some_iff] at made
  obtain ⟨⟨sizeObject, c₁⟩, first, ⟨res, c₂⟩, second, ⟨oc, c₃⟩, ofOffset, ⟨sc, sr, c₄⟩, ofSize,
    ⟨ic, ir, c₅⟩, ofInitial, made⟩ :=
    made
  unfold CCode.getAndAllocateGPR2 at first second
  split at first
  · cases first
  · next free =>
    cases first
    split at second
    · cases second
    · next free' =>
      cases second
      obtain ⟨offsetNone, rfl⟩ := offsetMade (c := c.busy) parsedOffset fresh busyUsed ofOffset
      obtain ⟨sizeNone, _, rfl⟩ := operandMade (c := c.busy) parsedSize fresh busyUsed ofSize
      obtain ⟨initialNone, _, rfl⟩ := operandMade (c := c.busy) parsedInitial fresh busyUsed ofInitial
      cases made
      refine ⟨⟨initialNone, offsetNone, sizeNone⟩, rfl, ?_, .made ofOffset ofSize ofInitial⟩
      have every : ∀ g : BitVec 8, g &&& gpr2Bits 5 5 = 0 → (g ||| gpr2Bits 5 5) &&& gpr2Bits 6 7 = 0 →
          (g ||| gpr2Bits 5 5 ||| gpr2Bits 6 7) &&& ~~~gpr2Bits 5 7 = g := by decide
      simp only [CCode.gpr2IsUsed, decide_eq_true_eq, not_not] at free free'
      ext1
      · rfl
      · exact every _ free free'
      · rfl

inductive Emitted (c : CCode) (e : CENode) : List CInstruction → Prop
  | plain {code : List CInstruction} (none : checksums e = []) (loads : Loads true code e) : Emitted c e code
  | checksum {initial offset size : CENode} {before rest : List CInstruction}
      (one : checksums e = [(initial, offset, size)]) (first : ChecksumCode initial offset size c before)
      (loads : Loads true rest e) : Emitted c e (before ++ rest)

theorem Emitted.others {ops : List CInstruction} (emitted : Emitted c e code) (plain : ∀ i ∈ ops, i.neutral true = true) :
    Emitted c e (code ++ ops) := by
  cases emitted with
  | plain none loads => exact .plain none (loads.others plain)
  | checksum one first loads =>
    rw [List.append_assoc]
    exact .checksum one first (loads.others plain)

theorem Emitted.more {type : SoftIr.Dyadic} {a b : CENode} {more : List CInstruction} (plain : type ≠ .checksum)
    (sides : (a = left ∧ b = right) ∨ (a = right ∧ b = left)) (emitted : Emitted c a code) (none : checksums b = [])
    (loads : Loads true more b) : Emitted c (.dyadic type left right) (code ++ more) := by
  have whole : checksums (.dyadic type left right) = checksums a := by
    rw [checksumsSides plain]
    rcases sides with ⟨rfl, rfl⟩ | ⟨rfl, rfl⟩ <;> rw [none]
    · exact List.append_nil _
    · rfl
  cases emitted with
  | plain empty first => exact .plain (whole.trans empty) (bothLoad plain sides first loads)
  | checksum one first rest =>
    rw [List.append_assoc]
    exact .checksum (whole.trans one) first (bothLoad plain sides rest loads)

def Direct (e : CENode) : Prop := ∀ {reg concat c code r c'}, processExpression e reg concat c = some (code, r, c') →
  Accepted e → c.chksumStored = false → Emitted c e code ∧ ∃ n, c' = { c with uniqueName := n }

theorem concatPlain (checked : checkExprValue (.dyadic .shlAnd left right) = true) : checksums right = [] := by
  simp only [checkExprValue, Bool.and_eq_true] at checked
  have allowed := checked.1.1.1
  cases right <;> first | rfl | (simp [nodeAllowed] at allowed)

theorem direct (e : CENode) : Direct e := by
  induction e with
  | objRef _ | intConst _ | monadic _ _ _ =>
    intro reg concat c code r c' made accepted fresh
    first
    | cases made
      done
    | obtain ⟨loads, same⟩ := sameAfter rfl accepted.parsed made
      exact ⟨.plain rfl loads, c.uniqueName, same⟩
  | dyadic type left right leftDirect rightDirect =>
    intro reg concat c code r c' made accepted fresh
    obtain ⟨acceptedLeft, acceptedRight⟩ := accepted.sides
    by_cases checksum : type = .checksum
    · subst checksum
      match right, made with
      | .dyadic kind offset size, made =>
        obtain ⟨⟨initialNone, offsetNone, sizeNone⟩, _, same, first⟩ := checksumMade fresh acceptedLeft.parsed
          acceptedRight.parsed.2.1 acceptedRight.parsed.2.2 made
        have one : checksums (.dyadic .checksum left (.dyadic kind offset size)) = [(left, offset, size)] := by
          simp [checksums, initialNone, offsetNone, sizeNone]
        have all := Emitted.checksum one first ⟨[], .nil, by simp [fields]⟩
        rw [List.append_nil] at all
        exact ⟨all, _, same⟩
    · cases operated accepted.parsed.1 checksum made with
      | concat kind first second =>
        subst kind
        have none := concatPlain accepted.checked
        obtain ⟨emitted, n, same⟩ := leftDirect first acceptedLeft fresh
        obtain ⟨loads, rfl⟩ := sameAfter none acceptedRight.parsed second
        exact ⟨emitted.more checksum (.inl ⟨rfl, rfl⟩) none loads, n, same⟩
      | immediate value first op =>
        obtain ⟨none, noFields⟩ := constantPlain (rightIntConstant value)
        obtain ⟨emitted, n, same⟩ := leftDirect first acceptedLeft fresh
        have all := (emitted.more checksum (.inl ⟨rfl, rfl⟩) none ⟨[], .nil, by simp [noFields]⟩).others
          fun i member => neutralMore (op i member)
        rw [List.append_nil] at all
        exact ⟨all, n, same⟩
      | @plain a b _ _ _ _ _ _ _ _ sides light first second op =>
        obtain ⟨directA, _⟩ := @eachSide _ _ Direct _ _ sides @leftDirect @rightDirect
        obtain ⟨acceptedA, acceptedB⟩ := eachSide sides acceptedLeft acceptedRight
        obtain ⟨emitted, n, same⟩ := directA first acceptedA fresh
        have none : checksums b = [] := by
          by_contra some_
          have := heavy some_
          omega
        obtain ⟨loads, rfl⟩ := sameAfter none acceptedB.parsed second
        exact ⟨(emitted.more checksum sides none loads).others fun i member => neutralMore (op i member), n, same⟩
      | spilled sides first room second op =>
        obtain ⟨directA, _⟩ := @eachSide _ _ Direct _ _ sides @leftDirect @rightDirect
        obtain ⟨acceptedA, acceptedB⟩ := eachSide sides acceptedLeft acceptedRight
        obtain ⟨emitted, n, rfl⟩ := directA first acceptedA fresh
        obtain ⟨_, zero, rfl⟩ := allocateAll room
        have used : (0xff : BitVec 8) &&& gpr2Bits 5 5 ≠ 0 := by decide
        have none := noneInside _ second acceptedB.parsed fresh (decide_eq_true used)
        obtain ⟨loads, rfl⟩ := sameAfter none acceptedB.parsed second
        refine ⟨(((emitted.others ?_).more checksum sides none loads).others ?_).others fun i member =>
          neutralMore (op i member), n, ?_⟩
        · intro i member
          rw [List.mem_singleton.mp member]
          rfl
        · intro i member
          rw [List.mem_singleton.mp member]
          rfl
        · ext1
          · rfl
          · exact freeAll.trans zero.symm
          · rfl

end Checksums

section Statements

theorem foundOnce (e : CENode) : ∀ {c code c' found}, findAndProcessChecksum e c true = some (code, c', found) →
    checksums e = [] ∧ code = [] ∧ c' = c ∧ found = true := by
  induction e with
  | objRef _ | intConst _ =>
    intro c code c' found made
    cases made
    exact ⟨rfl, rfl, rfl, rfl⟩
  | monadic type node later =>
    intro c code c' found made
    exact later made
  | dyadic type left right leftOnce rightOnce =>
    intro c code c' found made
    simp only [findAndProcessChecksum, bind, Option.bind_eq_some_iff] at made
    obtain ⟨⟨here, c₁, found₁⟩, first, ⟨lc, c₂, found₂⟩, inLeft, ⟨rc, c₃, found₃⟩, inRight, parts⟩ := made
    unfold findHere at first
    split at first
    · cases first
    · next plain =>
      cases first
      obtain ⟨leftNone, rfl, rfl, rfl⟩ := leftOnce inLeft
      obtain ⟨rightNone, rfl, rfl, rfl⟩ := rightOnce inRight
      cases parts
      rw [checksumsSides plain, leftNone, rightNone]
      exact ⟨rfl, rfl, rfl, rfl⟩

inductive Found (c : CCode) (e : CENode) : List CInstruction → CCode → Bool → Prop
  | none (empty : checksums e = []) : Found c e [] c false
  | one {initial offset size : CENode} {before : List CInstruction} {g : BitVec 8}
      (one : checksums e = [(initial, offset, size)]) (first : ChecksumCode initial offset size c before) :
      Found c e (before ++ [storeWr (gpr2Object 6 7) .wr0])
        { c with chksumStored := true, gpr2Used := g, uniqueName := c.uniqueName + 5 } true

theorem found (e : CENode) : ∀ {c code c' found}, findAndProcessChecksum e c false = some (code, c', found) → Accepted e →
    c.chksumStored = false → Found c e code c' found := by
  induction e with
  | objRef _ | intConst _ =>
    intro c code c' found made _ _
    cases made
    exact .none rfl
  | monadic type node later =>
    intro c code c' found made accepted fresh
    have checked := accepted.checked
    simp only [checkExprValue, Bool.and_eq_true] at checked
    cases later made ⟨accepted.parsed, checked.2⟩ fresh with
    | none empty => exact .none empty
    | one one first => exact .one one first
  | dyadic type left right leftFound rightFound =>
    intro c code c' found made accepted fresh
    obtain ⟨acceptedLeft, acceptedRight⟩ := accepted.sides
    simp only [findAndProcessChecksum, bind, Option.bind_eq_some_iff] at made
    obtain ⟨⟨here, c₁, found₁⟩, first, ⟨lc, c₂, found₂⟩, inLeft, ⟨rc, c₃, found₃⟩, inRight, parts⟩ := made
    cases parts
    unfold findHere at first
    split at first
    · next checksum =>
      subst checksum
      rw [if_neg (by simp)] at first
      simp only [bind, Option.bind_eq_some_iff] at first
      obtain ⟨⟨before, reg, c₄⟩, processed, ⟨ob, c₅⟩, room, stored⟩ := first
      cases stored
      obtain ⟨leftNone, rfl, rfl, rfl⟩ := foundOnce left inLeft
      obtain ⟨rightNone, rfl, rfl, rfl⟩ := foundOnce right inRight
      obtain ⟨kind, offset, size, rfl⟩ : ∃ kind offset size, right = .dyadic kind offset size := by
        cases right with
        | dyadic kind offset size => exact ⟨kind, offset, size, rfl⟩
        | _ => cases processed
      obtain ⟨⟨initialNone, offsetNone, sizeNone⟩, rfl, rfl, made⟩ := checksumMade fresh acceptedLeft.parsed
        acceptedRight.parsed.2.1 acceptedRight.parsed.2.2 processed
      unfold CCode.getAndAllocateGPR2 at room
      split at room
      · cases room
      · cases room
        have one : checksums (.dyadic .checksum left (.dyadic kind offset size)) = [(left, offset, size)] := by
          simp [checksums, initialNone, offsetNone, sizeNone]
        rw [List.append_nil, List.append_nil]
        exact .one one made
    · next plain =>
      cases first
      cases leftFound inLeft acceptedLeft fresh with
      | none leftNone =>
        cases rightFound inRight acceptedRight fresh with
        | none rightNone =>
          exact .none (by rw [checksumsSides plain, leftNone, rightNone]; rfl)
        | one one made => exact .one (by rw [checksumsSides plain, leftNone, one]; rfl) made
      | one one made =>
        obtain ⟨rightNone, rfl, rfl, rfl⟩ := foundOnce right inRight
        rw [List.append_nil]
        exact .one (by rw [checksumsSides plain, rightNone, one]; rfl) made

theorem stored (e : CENode) {c' c'' : CCode} {flag : Bool} {rest : List CInstruction} (accepted : Accepted e)
    (found : Found c e code c' flag) (made : processExpression e reg concat c' = some (rest, r, c'')) :
    Emitted c e (code ++ rest) := by
  cases found with
  | none empty => exact .plain empty (sameAfter empty accepted.parsed made).1
  | one one first =>
    obtain ⟨⟨l, handles, are⟩, _⟩ := processed e made accepted.parsed ⟨.inr ⟨by rw [one]; rfl, rfl⟩, .inl rfl⟩
    rw [List.append_assoc]
    exact .checksum one first ⟨l, .other rfl handles, are⟩

end Statements
end Flexbuild.SoftCode
