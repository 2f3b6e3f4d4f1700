import Flexbuild.SoftCodeRuns

/-! What the code of an expression does with the frame window: the loads of its fields, in the order in which
the sides are processed, and around a field that ends at bit 128 or later the two instructions that move the
window. -/
namespace Flexbuild.SoftCode
open ByteMemory (Byte)
open SoftIr (Word CObject CENode)

variable {c c' : CCode} {e left right : CENode} {reg : Option CReg} {concat : Bool} {code : List CInstruction} {r : CReg}

section Expressions

def fields : CENode → List CObject
  | .objRef o => if o.type = .fw then [o] else []
  | .dyadic .checksum _ _ => []
  | .dyadic _ left right => fields left ++ fields right
  | .monadic _ node => fields node
  | _ => []

def checksums : CENode → List (CENode × CENode × CENode)
  | .dyadic .checksum initial (.dyadic _ offset size) =>
    (initial, offset, size) :: (checksums initial ++ checksums offset ++ checksums size)
  | .dyadic _ left right => checksums left ++ checksums right
  | .monadic _ node => checksums node
  | _ => []

def Parsed : CENode → Prop
  | .objRef o => o.type = .fw → o.start ≤ o.stop ∧ o.stop ≤ o.start + 63 ∧ o.stop < 2 ^ 32
  | .intConst _ => True
  | .dyadic type left right => type ≠ .ass ∧ Parsed left ∧ Parsed right
  | .monadic _ node => Parsed node

def isMoreThan (bits : Nat) : CENode → Bool
  | .intConst v => 2 ^ bits ≤ v.toNat
  | .objRef o =>
    match o.type with
    | .pa | .ra => bits / 8 - 1 < o.stop - o.start
    | .fw => bits - 1 < o.stop - o.start
    | _ => false
  | _ => false

def nodeIsCond : CENode → Bool
  | .dyadic type _ _ => isCond type
  | .monadic type _ => type = .not
  | _ => false

def nodeAllowed (type : SoftIr.Dyadic) (left right : CENode) : Bool :=
  match type, left, right with
  | .shl, _, .intConst v | .shr, _, .intConst v => 1 ≤ v.toNat && v.toNat ≤ 64
  | .shl, _, _ | .shr, _, _ => false
  | .shlAnd, _, .intConst _ | .shlAnd, _, .objRef _ => true
  | .shlAnd, _, _ => false
  | .addCarry, left, right => !isMoreThan 16 left && !isMoreThan 16 right
  | .checksumLoc, .intConst offset, .intConst size => offset.toNat ≤ 256 && size.toNat ≤ 256
  | .checksumLoc, _, .intConst size => size.toNat ≤ 256
  | .checksum, .intConst initial, _ => initial.toNat ≤ 0xffff
  | _, _, _ => true

def checkExprValue : CENode → Bool
  | .dyadic type left right =>
    nodeAllowed type left right &&
      (if type = .and ∨ type = .or then nodeIsCond left && nodeIsCond right
       else !nodeIsCond left && !nodeIsCond right) &&
      checkExprValue left && checkExprValue right
  | .monadic type node => (if type = .not then nodeIsCond node else !nodeIsCond node) && checkExprValue node
  | _ => true

structure Accepted (e : CENode) : Prop where
  parsed : Parsed e
  checked : checkExprValue e = true

theorem Accepted.sides {type : SoftIr.Dyadic} (accepted : Accepted (.dyadic type left right)) :
    Accepted left ∧ Accepted right := by
  obtain ⟨⟨_, parsedLeft, parsedRight⟩, checked⟩ := accepted
  simp only [checkExprValue, Bool.and_eq_true] at checked
  exact ⟨⟨parsedLeft, checked.1.2⟩, ⟨parsedRight, checked.2⟩⟩

end Expressions

section Handling

-- Instructions that leave the window alone and do not jump. `stores` tells whether the result array may be written.
def CInstruction.neutral (stores : Bool) : CInstruction → Bool
  | .storeIvToRa _ _ _ | .storeWrToRa _ _ _ => stores
  | .loadBitsFwToWr _ _ _ _ _ | .loadSvToWo _ | .addSvToWo _ | .setWoByWr _ | .addWoByWr _ => false
  | i => i.straight

inductive Handles (stores : Bool) : List CInstruction → List CObject → Prop
  | nil : Handles stores [] []
  | other {i : CInstruction} {code : List CInstruction} {l : List CObject} (plain : i.neutral stores = true)
      (rest : Handles stores code l) : Handles stores (i :: code) l
  | near {o : CObject} {reg : CReg} {shift : Bool} {code : List CInstruction} {l : List CObject} (inside : o.stop < 128)
      (rest : Handles stores code l) : Handles stores (loadBits reg shift o :: code) (o :: l)
  | far {o : CObject} {reg : CReg} {shift : Bool} {code : List CInstruction} {l : List CObject} (beyond : 128 ≤ o.stop)
      (rest : Handles stores code l) :
      Handles stores (.addSvToWo (addWo o) :: .nop :: loadBits reg shift o :: .loadSvToWo 0 :: code) (o :: l)

variable {stores : Bool} {l m : List CObject}

theorem Handles.append {others : List CInstruction} (first : Handles stores code l) (second : Handles stores others m) :
    Handles stores (code ++ others) (l ++ m) := by
  induction first with
  | nil => exact second
  | other plain _ later => exact .other plain later
  | near inside _ later => exact .near inside later
  | far beyond _ later => exact .far beyond later

theorem neutralStraight {i : CInstruction} (plain : i.neutral stores = true) : i.straight = true := by
  cases i <;> first | rfl | exact plain

theorem Handles.straight (handles : Handles stores code l) : Straight code := by
  induction handles with
  | nil => simp [Straight]
  | other plain _ later =>
    exact List.forall_mem_cons.mpr ⟨neutralStraight plain, later⟩
  | near _ _ later => exact List.forall_mem_cons.mpr ⟨rfl, later⟩
  | far _ _ later =>
    refine List.forall_mem_cons.mpr ⟨rfl, List.forall_mem_cons.mpr ⟨rfl, List.forall_mem_cons.mpr ⟨rfl, ?_⟩⟩⟩
    exact List.forall_mem_cons.mpr ⟨rfl, later⟩

theorem handlesOthers (plain : ∀ i ∈ code, i.neutral stores = true) : Handles stores code [] := by
  induction code with
  | nil => exact .nil
  | cons i code later =>
    exact .other (plain i List.mem_cons_self) (later fun j member => plain j (List.mem_cons_of_mem _ member))

theorem neutralMore {i : CInstruction} (plain : i.neutral false = true) : i.neutral stores = true := by
  cases i <;> first | exact plain | cases plain

end Handling

section Operations

variable {type : SoftIr.Dyadic}

theorem operationNeutral {value : Option Word} {reg left right : CReg} {i : CInstruction}
    (made : operation type value reg left right = some i) : i.neutral false = true := by
  cases type <;> cases made <;> cases value <;> rfl

inductive Operated (type : SoftIr.Dyadic) (left right : CENode) (c : CCode) : List CInstruction → CCode → Prop
  | concat {reg : Option CReg} {lc rc : List CInstruction} {lr rr : CReg} {c₁ c' : CCode} (kind : type = .shlAnd)
      (first : processExpression left reg false c = some (lc, lr, c₁))
      (second : processExpression right (some lr) true c₁ = some (rc, rr, c')) : Operated type left right c (lc ++ rc) c'
  | immediate {reg : Option CReg} {lc ops : List CInstruction} {lr : CReg} {c' : CCode} {v : Word}
      (value : rightInt type right = some v) (first : processExpression left reg false c = some (lc, lr, c'))
      (op : ∀ i ∈ ops, i.neutral false = true) : Operated type left right c (lc ++ ops) c'
  | plain {a b : CENode} {reg : Option CReg} {ac bc ops : List CInstruction} {ar br : CReg} {c₁ c' : CCode}
      (sides : (a = left ∧ b = right) ∨ (a = right ∧ b = left)) (light : weight b ≤ 1)
      (first : processExpression a reg false c = some (ac, ar, c₁))
      (second : processExpression b (some ar.other) false c₁ = some (bc, br, c'))
      (op : ∀ i ∈ ops, i.neutral false = true) : Operated type left right c (ac ++ bc ++ ops) c'
  | spilled {a b : CENode} {reg : Option CReg} {ac bc ops : List CInstruction} {ar br : CReg} {c₁ c₂ c₃ : CCode}
      {obj : CObject} (sides : (a = left ∧ b = right) ∨ (a = right ∧ b = left))
      (first : processExpression a reg false c = some (ac, ar, c₁))
      (room : c₁.getAndAllocateGPR2 0 7 = some (obj, c₂))
      (second : processExpression b (some ar.other) false c₂ = some (bc, br, c₃))
      (op : ∀ i ∈ ops, i.neutral false = true) :
      Operated type left right c (ac ++ [storeWr obj ar] ++ bc ++ [loadBytes ar false obj] ++ ops) (c₃.freeGPR2 0 7)

theorem bothOperated {a b : CENode} {sidesCode ops : List CInstruction} {ar br : CReg}
    (sides : (a = left ∧ b = right) ∨ (a = right ∧ b = left))
    (made : processBoth (processExpression a) (processExpression b) (1 < weight b) reg c = some (sidesCode, ar, br, c'))
    (op : ∀ i ∈ ops, i.neutral false = true) : Operated type left right c (sidesCode ++ ops) c' := by
  simp only [processBoth, bind, Option.bind_eq_some_iff] at made
  obtain ⟨⟨ac, ar', c₁⟩, first, made⟩ := made
  split at made
  · simp only [Option.bind_eq_some_iff] at made
    obtain ⟨⟨obj, c₂⟩, room, ⟨bc, br', c₃⟩, second, made⟩ := made
    cases made
    exact .spilled sides first room second op
  · next light =>
    simp only [Option.bind_eq_some_iff] at made
    obtain ⟨⟨bc, br', c₂⟩, second, made⟩ := made
    cases made
    exact .plain sides (by simpa using light) first second op

theorem operated (assign : type ≠ .ass) (plain : type ≠ .checksum)
    (made : processExpression (.dyadic type left right) reg concat c = some (code, r, c')) :
    Operated type left right c code c' := by
  have unfolded : processExpression (.dyadic type left right) reg concat c =
      processWROperation type left right (processExpression left) (processExpression right) reg c := by
    cases type <;> first | rfl | exact absurd rfl assign | exact absurd rfl plain
  rw [unfolded] at made
  unfold processWROperation at made
  generalize (if isCond type || decide (type = .addCarry) then some CReg.wr0 else reg) = own at made
  dsimp only at made
  split at made
  · next kind =>
    simp only [bind, Option.bind_eq_some_iff] at made
    obtain ⟨⟨lc, lr, c₁⟩, first, ⟨rc, rr, c₂⟩, second, made⟩ := made
    cases made
    exact .concat kind first second
  · simp only [bind, Option.bind_eq_some_iff] at made
    obtain ⟨⟨sidesCode, lr, rr, c₁⟩, sides, made⟩ := made
    obtain ⟨ops, op, parts, same⟩ : ∃ ops, (∀ i ∈ ops, CInstruction.neutral false i = true) ∧ code = sidesCode ++ ops ∧
        c' = c₁ := by
      dsimp only at made
      split at made
      · cases made
        exact ⟨[], by simp, by simp, rfl⟩
      · obtain ⟨i, isI, made⟩ := Option.map_eq_some_iff.mp made
        cases made
        exact ⟨[i], by simpa using operationNeutral isI, rfl, rfl⟩
    subst parts same
    unfold processOperands at sides
    split at sides
    · next v value =>
      obtain ⟨⟨lc, lr', c₂⟩, first, sides⟩ := Option.map_eq_some_iff.mp sides
      cases sides
      exact .immediate value first op
    · unfold processSides at sides
      split at sides
      · obtain ⟨⟨bothCode, br, ar, c₂⟩, both, sides⟩ := Option.map_eq_some_iff.mp sides
        cases sides
        exact bothOperated (.inr ⟨rfl, rfl⟩) both op
      · exact bothOperated (.inl ⟨rfl, rfl⟩) sides op

end Operations

section Processed

def afterwards (e : CENode) (c : CCode) : CCode :=
  if checksums e = [] then c else { c.freeGPR2 6 7 with chksumStored := false }

theorem allBits : gpr2Bits 0 7 = 0xff := by decide

theorem allocateAll {obj : CObject} (room : c.getAndAllocateGPR2 0 7 = some (obj, c')) :
    c.gpr2IsUsed 0 7 = false ∧ c.gpr2Used = 0 ∧ c' = { c with gpr2Used := 0xff } := by
  unfold CCode.getAndAllocateGPR2 at room
  split at room
  · cases room
  · next free =>
    have unused : c.gpr2IsUsed 0 7 = false := by simpa using free
    have zero : c.gpr2Used = 0 := by
      simp only [CCode.gpr2IsUsed, allBits, decide_eq_false_iff_not, not_not] at unused
      have every : ∀ g : BitVec 8, g &&& 0xff = 0 → g = 0 := by decide
      exact every _ unused
    cases room
    refine ⟨unused, zero, ?_⟩
    rw [zero, allBits]
    rfl

theorem freeAll : (c.freeGPR2 0 7).gpr2Used = 0 := by
  have every : ∀ g : BitVec 8, g &&& ~~~0xff = 0 := by decide
  unfold CCode.freeGPR2
  rw [allBits]
  exact every _

theorem constantPlain {v : Word} (value : constant e = some v) : checksums e = [] ∧ fields e = [] := by
  cases e <;> first | exact ⟨rfl, rfl⟩ | cases value

variable {type : SoftIr.Dyadic}

theorem rightIntConstant {v : Word} (value : rightInt type right = some v) : constant right = some v :=
  (Option.filter_eq_some_iff.mp value).1

theorem sidesEmpty {a b : CENode} (sides : (a = left ∧ b = right) ∨ (a = right ∧ b = left)) :
    checksums left ++ checksums right = [] ↔ checksums a = [] ∧ checksums b = [] := by
  rw [List.append_eq_nil_iff]
  rcases sides with ⟨rfl, rfl⟩ | ⟨rfl, rfl⟩
  · exact Iff.rfl
  · exact and_comm

theorem eachSide {P : CENode → Prop} {a b : CENode} (sides : (a = left ∧ b = right) ∨ (a = right ∧ b = left))
    (ofLeft : P left) (ofRight : P right) : P a ∧ P b := by
  rcases sides with ⟨rfl, rfl⟩ | ⟨rfl, rfl⟩
  · exact ⟨ofLeft, ofRight⟩
  · exact ⟨ofRight, ofLeft⟩

theorem sidesFields {a b : CENode} (sides : (a = left ∧ b = right) ∨ (a = right ∧ b = left)) (o : CObject) :
    o ∈ fields left ++ fields right ↔ o ∈ fields a ++ fields b := by
  rw [List.mem_append, List.mem_append]
  rcases sides with ⟨rfl, rfl⟩ | ⟨rfl, rfl⟩
  · exact Iff.rfl
  · exact or_comm

theorem fieldsSides (plain : type ≠ .checksum) :
    fields (.dyadic type left right) = fields left ++ fields right := by
  cases type <;> first | rfl | exact absurd rfl plain

theorem checksumsSides (plain : type ≠ .checksum) :
    checksums (.dyadic type left right) = checksums left ++ checksums right := by
  cases type <;> first | rfl | exact absurd rfl plain

def Loads (stores : Bool) (code : List CInstruction) (e : CENode) : Prop :=
  ∃ l, Handles stores code l ∧ ∀ o, o ∈ l ↔ o ∈ fields e

theorem objectLoads {stores : Bool} {o : CObject} (made : processObject reg concat o c = some (code, r, c')) :
    Loads stores code (.objRef o) ∧ c' = c := by
  unfold processObject at made
  cases made
  refine ⟨?_, rfl⟩
  unfold Loads
  obtain ⟨type, start, stop⟩ := o
  cases type with
  | ra => exact ⟨[], .other rfl .nil, by simp [fields]⟩
  | pa => exact ⟨[], .other rfl .nil, by simp [fields]⟩
  | wo => exact ⟨[], .nil, by simp [fields]⟩
  | local_ => exact ⟨[], .nil, by simp [fields]⟩
  | fw =>
    refine ⟨[⟨.fw, start, stop⟩], ?_, by simp [fields]⟩
    dsimp only
    by_cases beyond : 128 ≤ stop
    · rw [if_neg (by simp [addWo, beyond])]
      exact .far beyond .nil
    · rw [if_pos (by simp [addWo, beyond])]
      exact .other rfl (.near (by simpa using beyond) .nil)

structure Ready (stores : Bool) (e : CENode) (c : CCode) : Prop where
  stored : checksums e = [] ∨ ((checksums e).length = 1 ∧ c.chksumStored = true)
  room : stores = true ∨ (c.gpr2IsUsed 0 7 = true ∧ checksums e = [])

def Faithful (e : CENode) : Prop := ∀ {stores reg concat c code r c'},
  processExpression e reg concat c = some (code, r, c') → Parsed e → Ready stores e c → Loads stores code e ∧ c' = afterwards e c

theorem afterwardsEmpty (none : checksums e = []) (c : CCode) : afterwards e c = c := if_pos none

section Sides

variable {type : SoftIr.Dyadic} {stores : Bool} {a b : CENode} (plain : type ≠ .checksum)
  (sides : (a = left ∧ b = right) ∨ (a = right ∧ b = left)) (ready : Ready stores (.dyadic type left right) c)
include plain sides ready

theorem firstReady : Ready stores a c := by
  obtain ⟨stored, room⟩ := ready
  rw [checksumsSides plain] at stored room
  rw [sidesEmpty sides] at stored room
  refine ⟨?_, room.imp id fun both => ⟨both.1, both.2.1⟩⟩
  rcases stored with ⟨none, _⟩ | ⟨one, set⟩
  · exact .inl none
  · by_cases none : checksums a = []
    · exact .inl none
    · refine .inr ⟨?_, set⟩
      have some_ := List.length_pos_iff.mpr none
      rw [List.length_append] at one
      rcases sides with ⟨rfl, rfl⟩ | ⟨rfl, rfl⟩ <;> omega

theorem oneEmpty (some_ : checksums a ≠ []) : checksums b = [] ∧ stores = true := by
  obtain ⟨stored, room⟩ := ready
  rw [checksumsSides plain] at stored room
  rw [sidesEmpty sides] at stored room
  refine ⟨?_, room.resolve_right fun both => some_ both.2.1⟩
  obtain ⟨one, _⟩ := stored.resolve_left fun both => some_ both.1
  have positive := List.length_pos_iff.mpr some_
  rw [List.length_append] at one
  apply List.length_eq_zero_iff.mp
  rcases sides with ⟨rfl, rfl⟩ | ⟨rfl, rfl⟩ <;> omega

theorem secondReady : Ready stores b (afterwards a c) := by
  by_cases none : checksums a = []
  · rw [afterwardsEmpty none]
    exact firstReady plain (sides.symm.imp And.symm And.symm) ready
  · obtain ⟨empty, always⟩ := oneEmpty plain sides ready none
    exact ⟨.inl empty, .inl always⟩

theorem afterBoth : afterwards b (afterwards a c) = afterwards (.dyadic type left right) c := by
  have whole : checksums (.dyadic type left right) = [] ↔ checksums a = [] ∧ checksums b = [] := by
    rw [checksumsSides plain]
    exact sidesEmpty sides
  by_cases none : checksums a = []
  · rw [afterwardsEmpty none]
    unfold afterwards
    simp only [whole, none, true_and]
  · obtain ⟨empty, _⟩ := oneEmpty plain sides ready none
    rw [afterwardsEmpty empty]
    unfold afterwards
    rw [if_neg none, if_neg fun both => none (whole.mp both).1]

omit ready in
theorem bothLoad {first second : List CInstruction} (loadsFirst : Loads stores first a) (loadsSecond : Loads stores second b) :
    Loads stores (first ++ second) (.dyadic type left right) := by
  obtain ⟨l, handles, are⟩ := loadsFirst
  obtain ⟨m, handles', are'⟩ := loadsSecond
  refine ⟨l ++ m, handles.append handles', fun o => ?_⟩
  rw [fieldsSides plain, sidesFields sides, List.mem_append, List.mem_append, are, are']

end Sides

theorem Loads.others {stores : Bool} {ops : List CInstruction} (loads : Loads stores code e)
    (plain : ∀ i ∈ ops, i.neutral stores = true) : Loads stores (code ++ ops) e := by
  obtain ⟨l, handles, are⟩ := loads
  have more := handles.append (handlesOthers plain)
  rw [List.append_nil] at more
  exact ⟨l, more, are⟩

theorem afterSpill (e : CENode) (zero : c.gpr2Used = 0) :
    (afterwards e { c with gpr2Used := 0xff }).freeGPR2 0 7 = afterwards e c := by
  unfold afterwards
  split
  · ext1
    · rfl
    · exact freeAll.trans zero.symm
    · rfl
  · ext1
    · rfl
    · refine freeAll.trans ?_
      have cleared : (c.freeGPR2 6 7).gpr2Used = 0 &&& ~~~gpr2Bits 6 7 := by rw [← zero]; rfl
      exact (cleared.trans (BitVec.zero_and)).symm
    · rfl

theorem operatedLoads {stores : Bool} (plain : type ≠ .checksum) (faithfulLeft : Faithful left)
    (faithfulRight : Faithful right) (parsedLeft : Parsed left) (parsedRight : Parsed right)
    (ready : Ready stores (.dyadic type left right) c) (made : Operated type left right c code c') :
    Loads stores code (.dyadic type left right) ∧ c' = afterwards (.dyadic type left right) c := by
  cases made with
  | concat kind first second =>
    have sides : (left = left ∧ right = right) ∨ (left = right ∧ right = left) := .inl ⟨rfl, rfl⟩
    obtain ⟨loads, rfl⟩ := faithfulLeft first parsedLeft (firstReady plain sides ready)
    obtain ⟨loads', rfl⟩ := faithfulRight second parsedRight (secondReady plain sides ready)
    exact ⟨bothLoad plain sides loads loads', afterBoth plain sides ready⟩
  | immediate value first op =>
    have sides : (left = left ∧ right = right) ∨ (left = right ∧ right = left) := .inl ⟨rfl, rfl⟩
    obtain ⟨none, noFields⟩ := constantPlain (rightIntConstant value)
    obtain ⟨loads, rfl⟩ := faithfulLeft first parsedLeft (firstReady plain sides ready)
    have nothing : Loads stores [] right := ⟨[], .nil, by simp [noFields]⟩
    have all := (bothLoad plain sides loads nothing).others fun i member => neutralMore (op i member)
    rw [List.append_nil] at all
    refine ⟨all, ?_⟩
    have after := afterBoth plain sides ready
    rwa [afterwardsEmpty none] at after
  | plain sides _ first second op =>
    obtain ⟨faithfulA, faithfulB⟩ := @eachSide _ _ Faithful _ _ sides @faithfulLeft @faithfulRight
    obtain ⟨parsedA, parsedB⟩ := eachSide sides parsedLeft parsedRight
    obtain ⟨loads, rfl⟩ := faithfulA first parsedA (firstReady plain sides ready)
    obtain ⟨loads', rfl⟩ := faithfulB second parsedB (secondReady plain sides ready)
    exact ⟨(bothLoad plain sides loads loads').others fun i member => neutralMore (op i member),
      afterBoth plain sides ready⟩
  | @spilled a b _ _ _ _ _ _ _ c₂ _ _ sides first room second op =>
    obtain ⟨faithfulA, faithfulB⟩ := @eachSide _ _ Faithful _ _ sides @faithfulLeft @faithfulRight
    obtain ⟨parsedA, parsedB⟩ := eachSide sides parsedLeft parsedRight
    obtain ⟨loads, rfl⟩ := faithfulA first parsedA (firstReady plain sides ready)
    obtain ⟨unused, zero, rfl⟩ := allocateAll room
    have always : stores = true := by
      refine ready.room.resolve_right fun ⟨used, empty⟩ => ?_
      rw [checksumsSides plain, sidesEmpty sides] at empty
      rw [afterwardsEmpty empty.1, used] at unused
      cases unused
    obtain ⟨loads', rfl⟩ := faithfulB second parsedB ⟨(secondReady plain sides ready).stored, .inl always⟩
    refine ⟨?_, ?_⟩
    · refine ((bothLoad plain sides (loads.others ?_) loads').others ?_).others fun i member => neutralMore (op i member)
      · intro i member
        rw [List.mem_singleton.mp member]
        exact always
      · intro i member
        rw [List.mem_singleton.mp member]
        rfl
    · rw [← afterBoth plain sides ready]
      exact afterSpill b zero

theorem processed (e : CENode) : Faithful e := by
  induction e with
  | objRef o =>
    intro stores reg concat c code r c' made _ _
    exact objectLoads made
  | intConst v =>
    intro stores reg concat c code r c' made _ _
    cases made
    exact ⟨⟨[], .other rfl .nil, by simp [fields]⟩, rfl⟩
  | monadic type node _ =>
    intro stores reg concat c code r c' made
    cases made
  | dyadic type left right leftLoads rightLoads =>
    intro stores reg concat c code r c' made ⟨assign, parsedLeft, parsedRight⟩ ready
    by_cases checksum : type = .checksum
    · subst checksum
      match right, made with
      | .dyadic kind offset size, made =>
        have some_ : checksums (.dyadic .checksum left (.dyadic kind offset size)) ≠ [] := by simp [checksums]
        obtain ⟨_, set⟩ := ready.stored.resolve_left some_
        change processChecksum _ _ _ _ _ _ = _ at made
        unfold processChecksum at made
        rw [if_pos set] at made
        cases made
        refine ⟨⟨[], .other rfl .nil, by simp [fields]⟩, ?_⟩
        rw [afterwards, if_neg some_]
    · exact operatedLoads checksum leftLoads rightLoads parsedLeft parsedRight ready (operated assign checksum made)

end Processed
end Flexbuild.SoftCode
