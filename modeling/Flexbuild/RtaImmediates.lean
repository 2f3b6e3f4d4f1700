import Flexbuild.RtaLoadWords

/-! Immediate operands. A register and an immediate value come in the same parameter, and some checks compare
it with the numbers of registers without a look at the flag. What a command puts for a value should depend on the
value only in the words of the value itself. -/
namespace Flexbuild.Rta

variable {machine : Machine} {era : Era} {p q : Program} {bigEndian wide bswap : Bool} {v w : BitVec 64} {flags options : Word}

def readValue (bigEndian : Bool) (p : Program) (position : Word) (wide : Bool) : BitVec 64 :=
  let first := readWord p position.toNat
  let second := readWord p (position + 1).toNat
  if wide then if p.bswap = bigEndian then second ++ first else first ++ second else first.setWidth 64

def truncated (wide : Bool) (v : BitVec 64) : BitVec 64 := if wide then v else (v.extractLsb' 0 32).setWidth 64

def valueWords (wide : Bool) : Nat := if wide then 2 else 1

structure Carries (bigEndian wide : Bool) (before after : Nat) (p q : Program) (v : BitVec 64) : Prop where
  count : q.emitted = p.emitted + before + valueWords wide + after
  value : readValue bigEndian q (p.currentPc + BitVec.ofNat 32 before) wide = truncated wide v

structure ByValue (bigEndian wide : Bool) (before after : Nat)
    (call : BitVec 64 → Program → Except Unit Word × Program) (p : Program) (v w : BitVec 64) : Prop where
  result : (call v p).1 = (call w p).1
  count : (call v p).2.emitted = (call w p).2.emitted
  opcode : readWord (call v p).2 p.currentPc.toNat = readWord (call w p).2 p.currentPc.toNat
  carries : ∀ u, u = v ∨ u = w → (call u p).1 ≠ .error () → Carries bigEndian wide before after p (call u p).2 u

section Buffer

theorem readPut (p : Program) (val i : Word) :
    readWord (p.out32 val) i.toNat = if i = p.currentPc then val else readWord p i.toNat := by
  unfold Program.out32 readWord
  change (if p.bswap then swab32 (Function.update p.buffer p.currentPc.toNat _ i.toNat) else
    Function.update p.buffer p.currentPc.toNat _ i.toNat) = _
  by_cases here : i = p.currentPc
  · subst here
    rw [Function.update_self, if_pos rfl]
    cases p.bswap with
    | false => rfl
    | true => exact swabSwab val
  · rw [Function.update_of_ne (mt BitVec.eq_of_toNat_eq here), if_neg here]

theorem readNext (p : Program) (i : Nat) : readWord p.nextInstruction i = readWord p i := rfl

theorem readPuts (p : Program) (a b i : Word) : readWord ((p.out32 a).out32 b) i.toNat =
    if i = p.currentPc + 1 then b else if i = p.currentPc then a else readWord p i.toNat := by
  rw [readPut, readPut]
  rfl

theorem readBehind {i : Word} (p : Program) (isExt : Bool) (val : BitVec 64) (here : i ≠ p.currentPc)
    (next : i ≠ p.currentPc + 1) : readWord (p.out64 bigEndian isExt val) i.toNat = readWord p i.toNat := by
  have second (a b : Word) : readWord ((p.out32 a).out32 b) i.toNat = readWord p i.toNat := by
    rw [readPuts, if_neg next, if_neg here]
  unfold Program.out64
  dsimp only
  split
  · split
    · exact second _ _
    · exact second _ _
  · rw [readPut, if_neg here]

theorem halves (v : BitVec 64) : (v.extractLsb' 32 32 ++ v.extractLsb' 0 32 : BitVec 64) = v := by
  ext i small
  rw [BitVec.getElem_append]
  split
  · simp [small]
  · next high =>
    have back : 32 + (i - 32) = i := by omega
    simp [back, small]

theorem readOut64 (p : Program) (wide : Bool) (v : BitVec 64) :
    readValue bigEndian (p.out64 bigEndian wide v) p.currentPc wide = truncated wide v := by
  have away : p.currentPc ≠ p.currentPc + 1 := by bv_omega
  have first (a b : Word) : readWord ((p.out32 a).out32 b) p.currentPc.toNat = a := by
    rw [readPuts, if_neg away, if_pos rfl]
  have second (a b : Word) : readWord ((p.out32 a).out32 b) (p.currentPc + 1).toNat = b := by
    rw [readPuts, if_pos rfl]
  unfold readValue truncated Program.out64
  cases wide with
  | false => simp only [Bool.false_eq_true, if_false, readPut, if_true]
  | true =>
    simp only [if_true]
    by_cases order : p.bswap = bigEndian
    · have order' : ((p.out32 (v.extractLsb' 0 32)).out32 (v.extractLsb' 32 32)).bswap = bigEndian := order
      rw [if_pos order, if_pos order', first, second]
      exact halves v
    · have order' : ¬ ((p.out32 (v.extractLsb' 32 32)).out32 (v.extractLsb' 0 32)).bswap = bigEndian := order
      rw [if_neg order, if_neg order', first, second]
      exact halves v

theorem emittedOut64 (p : Program) (isExt : Bool) (v : BitVec 64) :
    (p.out64 bigEndian isExt v).emitted = p.emitted + valueWords isExt := (appendsOut64 p isExt v).grown

end Buffer

section Calls

variable {call : BitVec 64 → Program → Except Unit Word × Program} {encode : BitVec 64 → Except Unit Word}
  {before after : Nat}

theorem carriesOut64 {r : Program} (start : r.currentPc = p.currentPc + BitVec.ofNat 32 before)
    (count : r.emitted = p.emitted + before) (wide : Bool) (v : BitVec 64) :
    Carries bigEndian wide before 0 p (r.out64 bigEndian wide v) v := by
  refine ⟨by rw [emittedOut64, count]; rfl, ?_⟩
  rw [← start]
  exact readOut64 r wide v

theorem readNarrow (p : Program) (i : Word) :
    readValue bigEndian p i false = (readWord p i.toNat).setWidth 64 := rfl

theorem byValueCases (refused : ∀ u, encode u = .error () → call u p = p.err)
    (puts : ∀ u opcode, encode u = .ok opcode →
      (call u p).1 = .ok p.currentPc ∧ readWord (call u p).2 p.currentPc.toNat = opcode) :
    ByValue bigEndian wide before after call p v w ↔ encode v = .error () ∧ encode w = .error () ∨
      ∃ opcode, encode v = .ok opcode ∧ encode w = .ok opcode ∧
        Carries bigEndian wide before after p (call v p).2 v ∧ Carries bigEndian wide before after p (call w p).2 w := by
  constructor
  · intro same
    have results := same.result
    cases first : encode v with
    | error =>
      cases second : encode w with
      | error => exact Or.inl ⟨rfl, rfl⟩
      | ok o =>
        rw [refused v first, (puts w o second).1] at results
        exact nomatch results
    | ok o =>
      cases second : encode w with
      | error =>
        rw [refused w second, (puts v o first).1] at results
        exact nomatch results
      | ok o' =>
        have word : o = o' := (puts v o first).2.symm.trans (same.opcode.trans (puts w o' second).2)
        subst word
        refine Or.inr ⟨o, rfl, rfl, same.carries v (Or.inl rfl) ?_, same.carries w (Or.inr rfl) ?_⟩
        · rw [(puts v o first).1]
          exact nofun
        · rw [(puts w o second).1]
          exact nofun
  · rintro (⟨first, second⟩ | ⟨o, first, second, carriesV, carriesW⟩)
    · have both : ∀ u, u = v ∨ u = w → call u p = p.err := by
        rintro u (rfl | rfl)
        · exact refused u first
        · exact refused u second
      have sameCall : call v p = call w p := (both v (Or.inl rfl)).trans (both w (Or.inr rfl)).symm
      refine ⟨congrArg _ sameCall, by rw [sameCall], by rw [sameCall], fun u which accepted => absurd ?_ accepted⟩
      rw [both u which]
      rfl
    · refine ⟨(puts v o first).1.trans (puts w o second).1.symm, carriesV.count.trans carriesW.count.symm,
        (puts v o first).2.trans (puts w o second).2.symm, ?_⟩
      rintro u (rfl | rfl) -
      · exact carriesV
      · exact carriesW

theorem byValueAllowed {allowed : BitVec 64 → Prop} {others : Prop}
    (refused : ∀ u, encode u = .error () → call u p = p.err)
    (puts : ∀ u opcode, encode u = .ok opcode →
      (call u p).1 = .ok p.currentPc ∧ readWord (call u p).2 p.currentPc.toNat = opcode)
    (carries : ∀ u opcode, encode u = .ok opcode → Carries bigEndian wide before after p (call u p).2 u)
    (accepts : ∀ u, (∃ opcode, encode u = .ok opcode) ↔ allowed u ∧ others)
    (one : ∀ u u' o o', encode u = .ok o → encode u' = .ok o' → o = o') :
    ByValue bigEndian wide before after call p v w ↔ (others → (allowed v ↔ allowed w)) := by
  have refuses (u : BitVec 64) (not : ¬(allowed u ∧ others)) : encode u = .error () := by
    cases result : encode u with
    | error => rfl
    | ok o => exact absurd ((accepts u).1 ⟨o, result⟩) not
  rw [byValueCases refused puts]
  constructor
  · rintro (⟨first, second⟩ | ⟨o, first, second, -⟩) passes
    · have never (u : BitVec 64) (error : encode u = .error ()) : ¬allowed u := by
        intro good
        obtain ⟨o, ok⟩ := (accepts u).2 ⟨good, passes⟩
        exact nomatch error.symm.trans ok
      exact ⟨fun good => absurd good (never v first), fun good => absurd good (never w second)⟩
    · exact ⟨fun _ => ((accepts w).1 ⟨o, second⟩).1, fun _ => ((accepts v).1 ⟨o, first⟩).1⟩
  · intro alike
    by_cases good : allowed v ∧ others
    · obtain ⟨o, first⟩ := (accepts v).2 good
      obtain ⟨o', second⟩ := (accepts w).2 ⟨(alike good.2).1 good.1, good.2⟩
      cases one v w o o' first second
      exact Or.inr ⟨o, first, second, carries v o first, carries w o second⟩
    · refine Or.inl ⟨refuses v good, refuses w fun good' => good ⟨(alike good'.2).2 good'.1, good'.2⟩⟩

end Calls

section Math

variable {operand1 operand2 operand1' operand2' : BitVec 64} {op result : Word} {length : Int}

def unary (op : Word) : Prop := op = Math.zbyt ∨ op = Math.bswap

def firstAllowed (op : Word) (operand1 : BitVec 64) : Prop := op ≠ Math.shld → ¬named operand1 Reg.none
def secondAllowed (op : Word) (operand2 : BitVec 64) : Prop :=
  (op ≠ Math.shld → ¬named operand2 Reg.seqinsz) ∧ (unary op → named operand2 Reg.none)

structure MathChecked (era : Era) (op result : Word) (length : Int) (options : Word) : Prop where
  operation : ¬(op = Math.bswap ∧ era < era4 ∨ op = Math.zbyt ∧ era < 1)
  swapEra : ¬(options &&& Math.swp ≠ 0 ∧ era < era7)
  swap : ¬(options &&& Math.swp ≠ 0 ∧ (options &&& Math.ifb ≠ 0 ∨
    ¬options &&& Flag.immed ≠ 0 ∧ ¬options &&& Flag.immed2 ≠ 0 ∨ options &&& Flag.immed ≠ 0 ∧ options &&& Flag.immed2 ≠ 0))
  dest : ∃ dest, rtaMapOpcode result (mathResult.take (mathResultSz era)) = .ok dest
  fn : ∃ fn, mathFun op = .ok fn
  len : ∃ len, mathLength length = .ok len

def firstMapped (era : Era) (operand1 : BitVec 64) (options : Word) : Prop :=
  ∃ first, mathOperand1 era operand1 options = .ok first
def secondMapped (era : Era) (operand2 : BitVec 64) (options : Word) : Prop :=
  ∃ second, mathOperand2 era operand2 options = .ok second

theorem mathAccepts : (∃ opcode, mathOpcode era operand1 op operand2 result length options = .ok opcode) ↔
    firstAllowed op operand1 ∧ secondAllowed op operand2 ∧ MathChecked era op result length options ∧
      firstMapped era operand1 options ∧ secondMapped era operand2 options := by
  constructor
  · rintro ⟨opcode, encoded⟩
    unfold mathOpcode at encoded
    dsimp only at encoded
    obtain ⟨operation, encoded⟩ := passed encoded
    obtain ⟨swapEra, encoded⟩ := passed encoded
    obtain ⟨swap, encoded⟩ := passed encoded
    obtain ⟨operands, encoded⟩ := passed encoded
    obtain ⟨single, encoded⟩ := passed encoded
    obtain ⟨first, foundFirst, encoded⟩ := bound encoded
    obtain ⟨second, foundSecond, encoded⟩ := bound encoded
    obtain ⟨dest, foundDest, encoded⟩ := bound encoded
    obtain ⟨fn, foundFn, encoded⟩ := bound encoded
    obtain ⟨len, foundLen, -⟩ := bound encoded
    exact ⟨fun other same => operands ⟨other, Or.inl same⟩,
      ⟨fun other same => operands ⟨other, Or.inr same⟩, fun one => not_not.1 fun two => single ⟨one, two⟩⟩,
      ⟨operation, swapEra, swap, ⟨dest, foundDest⟩, ⟨fn, foundFn⟩, ⟨len, foundLen⟩⟩, ⟨first, foundFirst⟩,
      ⟨second, foundSecond⟩⟩
  · rintro ⟨allowed1, allowed2, ⟨operation, swapEra, swap, ⟨dest, foundDest⟩, ⟨fn, foundFn⟩, ⟨len, foundLen⟩⟩,
      ⟨first, foundFirst⟩, ⟨second, foundSecond⟩⟩
    have operands : ¬(op ≠ Math.shld ∧ (named operand1 Reg.none ∨ named operand2 Reg.seqinsz)) :=
      fun bad => bad.2.elim (allowed1 bad.1) (allowed2.1 bad.1)
    have single : ¬((op = Math.zbyt ∨ op = Math.bswap) ∧ ¬named operand2 Reg.none) := fun bad => bad.2 (allowed2.2 bad.1)
    unfold mathOpcode
    dsimp only
    rw [if_neg operation, if_neg swapEra, if_neg swap, if_neg operands, if_neg single, foundFirst, foundSecond, foundDest,
      foundFn, foundLen]
    exact ⟨_, rfl⟩

theorem mathWord {opcode opcode' : Word} (same1 : mathOperand1 era operand1 options = mathOperand1 era operand1' options)
    (same2 : mathOperand2 era operand2 options = mathOperand2 era operand2' options)
    (encoded : mathOpcode era operand1 op operand2 result length options = .ok opcode)
    (encoded' : mathOpcode era operand1' op operand2' result length options = .ok opcode') : opcode = opcode' := by
  unfold mathOpcode at encoded encoded'
  dsimp only at encoded encoded'
  rw [← same1, ← same2] at encoded'
  obtain ⟨-, encoded⟩ := passed (passed (passed (passed (passed encoded).2).2).2).2
  obtain ⟨-, encoded'⟩ := passed (passed (passed (passed (passed encoded').2).2).2).2
  exact Except.ok.inj (encoded.symm.trans encoded')

theorem mathRefused (encoded : mathOpcode era operand1 op operand2 result length options = .error ()) :
    rtaMath bigEndian era operand1 op operand2 result length options p = p.err := by
  rw [rtaMath, encoded]

def mathWide (length : Int) (options : Word) : Bool := 4 < length ∧ options &&& Math.ifb = 0

theorem mathPuts {opcode : Word} (encoded : mathOpcode era operand1 op operand2 result length options = .ok opcode) :
    (rtaMath bigEndian era operand1 op operand2 result length options p).1 = .ok p.currentPc ∧
      readWord (rtaMath bigEndian era operand1 op operand2 result length options p).2 p.currentPc.toNat = opcode := by
  have one : p.currentPc ≠ p.currentPc + 1 := by bv_omega
  have two : p.currentPc ≠ p.currentPc + 1 + 1 := by bv_omega
  have here : readWord (p.out32 opcode).nextInstruction p.currentPc.toNat = opcode := by
    rw [readNext, readPut, if_pos rfl]
  rw [rtaMath, encoded]
  refine ⟨rfl, ?_⟩
  dsimp only
  split
  · rw [readBehind _ _ _ one two, here]
  · split
    · rw [readBehind _ _ _ one two, here]
    · split
      · rw [readPuts]
        change (if p.currentPc = p.currentPc + 1 + 1 then _ else if p.currentPc = p.currentPc + 1 then _ else _) = _
        rw [if_neg two, if_neg one, here]
      · exact here

def firstWide (length : Int) (options : Word) : Bool := options &&& Flag.immed2 = 0 ∧ mathWide length options
def secondWide (length : Int) (options : Word) : Bool := options &&& Flag.immed = 0 ∧ mathWide length options

def immediates (options flag : Word) : Nat := if options &&& flag = 0 then 0 else 1

theorem firstCarries {opcode : Word} (immed : options &&& Flag.immed ≠ 0)
    (encoded : mathOpcode era operand1 op operand2 result length options = .ok opcode) :
    Carries bigEndian (firstWide length options) 1 (immediates options Flag.immed2) p
      (rtaMath bigEndian era operand1 op operand2 result length options p).2 operand1 := by
  have two : p.currentPc + 1 ≠ p.currentPc + 1 + 1 := by bv_omega
  rw [rtaMath, encoded]
  dsimp only
  by_cases immed2 : options &&& Flag.immed2 = 0
  · have wide : firstWide length options = mathWide length options := by simp [firstWide, immed2]
    rw [if_pos ⟨immed, immed2⟩, immediates, if_pos immed2, wide]
    exact carriesOut64 rfl rfl _ _
  · have wide : firstWide length options = false := decide_eq_false fun both => immed2 both.1
    rw [if_neg fun only => immed2 only.2, if_neg fun only => immed only.2, if_pos ⟨immed, immed2⟩, immediates,
      if_neg immed2, wide]
    refine ⟨rfl, ?_⟩
    change readValue bigEndian _ (p.currentPc + 1) false = _
    rw [readNarrow, readPuts]
    change BitVec.setWidth 64 (if p.currentPc + 1 = p.currentPc + 1 + 1 then _ else
      if p.currentPc + 1 = p.currentPc + 1 then _ else _) = _
    rw [if_neg two, if_pos rfl]
    rfl

theorem secondCarries {opcode : Word} (immed2 : options &&& Flag.immed2 ≠ 0)
    (encoded : mathOpcode era operand1 op operand2 result length options = .ok opcode) :
    Carries bigEndian (secondWide length options) (1 + immediates options Flag.immed) 0 p
      (rtaMath bigEndian era operand1 op operand2 result length options p).2 operand2 := by
  rw [rtaMath, encoded]
  dsimp only
  by_cases immed : options &&& Flag.immed = 0
  · have wide : secondWide length options = mathWide length options := by simp [secondWide, immed]
    rw [if_neg fun only => only.1 immed, if_pos ⟨immed2, immed⟩, immediates, if_pos immed, wide]
    exact carriesOut64 rfl rfl _ _
  · have wide : secondWide length options = false := decide_eq_false fun both => immed both.1
    rw [if_neg fun only => immed2 only.2, if_neg fun only => immed only.2, if_pos ⟨immed, immed2⟩, immediates,
      if_neg immed, wide]
    have behind : p.currentPc + BitVec.ofNat 32 (1 + 1) = p.currentPc + 1 + 1 := by bv_omega
    refine ⟨rfl, ?_⟩
    rw [behind, readNarrow, readPuts]
    change BitVec.setWidth 64 (if p.currentPc + 1 + 1 = p.currentPc + 1 + 1 then _ else _) = _
    rw [if_pos rfl]
    rfl

theorem firstByValue (immed : options &&& Flag.immed ≠ 0) :
    ByValue bigEndian (firstWide length options) 1 (immediates options Flag.immed2)
      (fun u => rtaMath bigEndian era u op operand2 result length options) p v w ↔
    (MathChecked era op result length options ∧ secondAllowed op operand2 ∧ secondMapped era operand2 options →
      (firstAllowed op v ↔ firstAllowed op w)) := by
  have field (u : BitVec 64) : mathOperand1 era u options = .ok Math.src0Imm := if_pos immed
  refine byValueAllowed (fun _ => mathRefused) (fun _ _ => mathPuts) (fun _ _ => firstCarries immed) (fun u => ?_)
    fun u u' _ _ => mathWord ((field u).trans (field u').symm) rfl
  rw [mathAccepts]
  constructor
  · rintro ⟨allowed, second, checked, -, mapped⟩
    exact ⟨allowed, checked, second, mapped⟩
  · rintro ⟨allowed, checked, second, mapped⟩
    exact ⟨allowed, second, checked, ⟨_, field u⟩, mapped⟩

theorem secondByValue (immed2 : options &&& Flag.immed2 ≠ 0) :
    ByValue bigEndian (secondWide length options) (1 + immediates options Flag.immed) 0
      (fun u => rtaMath bigEndian era operand1 op u result length options) p v w ↔
    (MathChecked era op result length options ∧ firstAllowed op operand1 ∧ firstMapped era operand1 options →
      (secondAllowed op v ↔ secondAllowed op w)) := by
  have field (u : BitVec 64) : mathOperand2 era u options = .ok Math.src1Imm := if_pos immed2
  refine byValueAllowed (fun _ => mathRefused) (fun _ _ => mathPuts) (fun _ _ => secondCarries immed2) (fun u => ?_)
    fun u u' _ _ => mathWord rfl ((field u).trans (field u').symm)
  rw [mathAccepts]
  constructor
  · rintro ⟨first, allowed, checked, mapped, -⟩
    exact ⟨allowed, checked, first, mapped⟩
  · rintro ⟨allowed, checked, first, mapped⟩
    exact ⟨first, allowed, checked, mapped, ⟨_, field u⟩⟩

end Math

section Store

variable {offset : BitVec 16} {src dst : BitVec 64} {length : Word}

def StoreChecked (offset : BitVec 16) (flags : Word) : Prop := flags &&& Flag.sgf = 0 ∧ offset = 0

instance (offset : BitVec 16) (flags : Word) : Decidable (StoreChecked offset flags) :=
  inferInstanceAs (Decidable (_ ∧ _))

def sameUnits (length flags : Word) (v w : BitVec 64) : Prop :=
  (named v Reg.descbuf ↔ named w Reg.descbuf) ∨ storeBase flags ||| length >>> 2 = storeBase flags ||| length

def storePointers (p : Program) (flags : Word) : Nat := if flags &&& Flag.seq = 0 then pointerWords p.ps else 0

theorem storeImmediate (immed : flags &&& Flag.immed ≠ 0) :
    storeOpcode era src offset length flags =
      if StoreChecked offset flags ∧ ¬(flags &&& Flag.seq ≠ 0 ∧ jobBuffer src) then
        .ok (storeBase flags ||| if named src Reg.descbuf ∨ jobBuffer src then length >>> 2 else length)
      else .error () := by
  unfold storeOpcode
  by_cases gather : flags &&& Flag.sgf = 0
  · rw [if_neg fun bad => bad.2 gather]
    by_cases start : offset = 0
    · rw [if_neg fun bad => bad.2 start]
      by_cases other : flags &&& Flag.seq ≠ 0 ∧ jobBuffer src
      · rw [if_pos other, if_neg fun good => good.2 other]
      · subst start
        have fields : storeFields src 0 length = if named src Reg.descbuf ∨ jobBuffer src then length >>> 2 else length := by
          unfold storeFields
          split
          · exact BitVec.or_zero
          · exact BitVec.or_zero
        have source : storeSource era src flags = .ok 0 := if_neg immed
        have none (x : Word) : x ||| 0 = x := BitVec.or_zero
        have good : StoreChecked 0 flags ∧ ¬(flags &&& Flag.seq ≠ 0 ∧ jobBuffer src) := ⟨⟨gather, rfl⟩, other⟩
        rw [if_neg other, if_pos good, source, fields]
        change Except.ok (storeBase flags ||| 0 ||| _) = _
        rw [none]
    · rw [if_pos ⟨immed, start⟩, if_neg fun good => start good.1.2]
  · rw [if_pos ⟨immed, gather⟩, if_neg fun good => gather good.1.1]

theorem storeRefused (encoded : storeOpcode era src offset length flags = .error ()) :
    rtaStore machine era src offset dst length flags p = p.err := by
  rw [rtaStore, encoded]

def stored (machine : Machine) (opcode : Word) (dst : BitVec 64) (flags : Word) (p : Program) : Program :=
  let q := (p.out32 opcode).nextInstruction
  if flags &&& Flag.seq = 0 then q.out64 machine.bigEndian q.ps dst else q

theorem storeWritten {opcode : Word} (immed : flags &&& Flag.immed ≠ 0) (value : flags &&& Flag.copyMask = 0)
    (encoded : storeOpcode era src offset length flags = .ok opcode) :
    rtaStore machine era src offset dst length flags p = (.ok p.currentPc,
      if jobBuffer src then (p.out32 opcode).nextInstruction
      else (stored machine opcode dst flags p).out64 machine.bigEndian (4 < length) src) := by
  rw [rtaStore, encoded]
  dsimp only
  rw [if_pos immed, Program.inlineData, if_pos value]
  rfl

theorem storedPlace (opcode : Word) : (stored machine opcode dst flags p).currentPc =
    p.currentPc + BitVec.ofNat 32 (1 + storePointers p flags) := by
  unfold stored storePointers
  dsimp only
  split
  · rw [(appendsOut64 _ _ _).counted, BitVec.ofNat_add, ← BitVec.add_assoc]
    rfl
  · rfl

theorem storedCount (opcode : Word) : (stored machine opcode dst flags p).emitted =
    p.emitted + (1 + storePointers p flags) := by
  unfold stored storePointers
  dsimp only
  split
  · rw [(appendsOut64 _ _ _).grown, ← Nat.add_assoc]
    rfl
  · rfl

theorem storedWord (opcode : Word) : readWord (stored machine opcode dst flags p) p.currentPc.toNat = opcode := by
  have one : p.currentPc ≠ p.currentPc + 1 := by bv_omega
  have two : p.currentPc ≠ p.currentPc + 1 + 1 := by bv_omega
  have here : readWord (p.out32 opcode).nextInstruction p.currentPc.toNat = opcode := by
    rw [readNext, readPut, if_pos rfl]
  unfold stored
  dsimp only
  split
  · rw [readBehind _ _ _ one two, here]
  · exact here

theorem pointersMost (p : Program) (flags : Word) : storePointers p flags ≤ 2 := by
  unfold storePointers pointerWords
  split
  · split
    · exact Nat.le_refl 2
    · exact Nat.le_succ 1
  · exact Nat.zero_le 2

theorem storePuts {opcode : Word} (immed : flags &&& Flag.immed ≠ 0) (value : flags &&& Flag.copyMask = 0)
    (encoded : storeOpcode era src offset length flags = .ok opcode) :
    (rtaStore machine era src offset dst length flags p).1 = .ok p.currentPc ∧
      readWord (rtaStore machine era src offset dst length flags p).2 p.currentPc.toNat = opcode := by
  rw [storeWritten immed value encoded]
  refine ⟨rfl, ?_⟩
  dsimp only
  split
  · rw [readNext, readPut, if_pos rfl]
  · have most := pointersMost p flags
    rw [readBehind, storedWord]
    · rw [storedPlace]
      bv_omega
    · rw [storedPlace]
      bv_omega

theorem storeCarries {opcode : Word} (immed : flags &&& Flag.immed ≠ 0) (value : flags &&& Flag.copyMask = 0)
    (encoded : storeOpcode era src offset length flags = .ok opcode) :
    Carries machine.bigEndian (4 < length) (1 + storePointers p flags) 0 p
      (rtaStore machine era src offset dst length flags p).2 src ↔ ¬jobBuffer src := by
  rw [storeWritten immed value encoded]
  constructor
  · intro carries job
    have count := carries.count
    dsimp only at count
    rw [if_pos job] at count
    change p.emitted + 1 = _ at count
    have some : 1 ≤ valueWords (4 < length) := by
      unfold valueWords
      split
      · exact Nat.le_succ 1
      · exact Nat.le_refl 1
    omega
  · intro other
    dsimp only
    rw [if_neg other]
    exact carriesOut64 (storedPlace opcode) (storedCount opcode) _ _

def immediateWord (length flags : Word) (src : BitVec 64) : Word :=
  storeBase flags ||| if named src Reg.descbuf then length >>> 2 else length

theorem storePlain (immed : flags &&& Flag.immed ≠ 0) (checked : StoreChecked offset flags) (other : ¬jobBuffer src) :
    storeOpcode era src offset length flags = .ok (immediateWord length flags src) := by
  have good : StoreChecked offset flags ∧ ¬(flags &&& Flag.seq ≠ 0 ∧ jobBuffer src) :=
    ⟨checked, fun both => other both.2⟩
  have counted : named src Reg.descbuf ∨ jobBuffer src ↔ named src Reg.descbuf :=
    ⟨fun either => either.resolve_right other, Or.inl⟩
  rw [storeImmediate immed, if_pos good, if_congr counted rfl rfl]
  rfl

theorem storeErrs (immed : flags &&& Flag.immed ≠ 0) : storeOpcode era src offset length flags = .error () ↔
    (StoreChecked offset flags → flags &&& Flag.seq ≠ 0 ∧ jobBuffer src) := by
  rw [storeImmediate immed]
  by_cases good : StoreChecked offset flags ∧ ¬(flags &&& Flag.seq ≠ 0 ∧ jobBuffer src)
  · rw [if_pos good]
    exact ⟨fun error => (nomatch error), fun bad => absurd (bad good.1) good.2⟩
  · rw [if_neg good]
    exact ⟨fun _ checked => not_not.1 fun other => good ⟨checked, other⟩, fun _ => rfl⟩

theorem sameWord : immediateWord length flags v = immediateWord length flags w ↔ sameUnits length flags v w := by
  unfold immediateWord sameUnits
  by_cases first : named v Reg.descbuf
  · by_cases second : named w Reg.descbuf
    · simp only [first, second, if_true, true_or]
    · simp only [first, second, if_true, if_false, true_iff, false_or]
  · by_cases second : named w Reg.descbuf
    · simp only [first, second, if_true, if_false, false_iff, not_true_eq_false, false_or]
      exact eq_comm
    · simp only [first, second, if_false, true_or]

theorem storeByValue (immed : flags &&& Flag.immed ≠ 0) (value : flags &&& Flag.copyMask = 0) :
    ByValue machine.bigEndian (4 < length) (1 + storePointers p flags) 0
      (fun u => rtaStore machine era u offset dst length flags) p v w ↔
    (StoreChecked offset flags → flags &&& Flag.seq ≠ 0 ∧ jobBuffer v ∧ jobBuffer w ∨
      ¬jobBuffer v ∧ ¬jobBuffer w ∧ sameUnits length flags v w) := by
  rw [@byValueCases _ _ _ _ _ _ (fun u => storeOpcode era u offset length flags) _ _ (fun _ => storeRefused)
    fun _ _ => storePuts immed value]
  constructor
  · rintro (⟨first, second⟩ | ⟨o, first, second, carriesV, carriesW⟩) checked
    · obtain ⟨seq, jobV⟩ := (storeErrs immed).1 first checked
      exact Or.inl ⟨seq, jobV, ((storeErrs immed).1 second checked).2⟩
    · have otherV := (storeCarries immed value first).1 carriesV
      have otherW := (storeCarries immed value second).1 carriesW
      rw [storePlain immed checked otherV] at first
      rw [storePlain immed checked otherW] at second
      exact Or.inr ⟨otherV, otherW, sameWord.1 (Except.ok.inj (first.trans second.symm))⟩
  · intro alike
    by_cases checked : StoreChecked offset flags
    · obtain ⟨seq, jobV, jobW⟩ | ⟨otherV, otherW, units⟩ := alike checked
      · exact Or.inl ⟨(storeErrs immed).2 fun _ => ⟨seq, jobV⟩, (storeErrs immed).2 fun _ => ⟨seq, jobW⟩⟩
      · have first := @storePlain era flags offset v length immed checked otherV
        have second := @storePlain era flags offset w length immed checked otherW
        rw [← sameWord.2 units] at second
        exact Or.inr ⟨_, first, second, (storeCarries immed value first).2 otherV,
          (storeCarries immed value second).2 otherW⟩
    · exact Or.inl ⟨(storeErrs immed).2 fun good => absurd good checked,
        (storeErrs immed).2 fun good => absurd good checked⟩

end Store

structure ImmediatesExact (machine : Machine) (era : Era) (p : Program) (v w : BitVec 64) : Prop where
  first : ∀ op operand2 result length options, options &&& Flag.immed ≠ 0 →
    (ByValue machine.bigEndian (firstWide length options) 1 (immediates options Flag.immed2)
        (fun u => rtaMath machine.bigEndian era u op operand2 result length options) p v w ↔
      (MathChecked era op result length options ∧ secondAllowed op operand2 ∧ secondMapped era operand2 options →
        (firstAllowed op v ↔ firstAllowed op w)))
  second : ∀ operand1 op result length options, options &&& Flag.immed2 ≠ 0 →
    (ByValue machine.bigEndian (secondWide length options) (1 + immediates options Flag.immed) 0
        (fun u => rtaMath machine.bigEndian era operand1 op u result length options) p v w ↔
      (MathChecked era op result length options ∧ firstAllowed op operand1 ∧ firstMapped era operand1 options →
        (secondAllowed op v ↔ secondAllowed op w)))
  store : ∀ offset dst length flags, flags &&& Flag.immed ≠ 0 → flags &&& Flag.copyMask = 0 →
    (ByValue machine.bigEndian (decide (4 < length)) (1 + storePointers p flags) 0
        (fun u => rtaStore machine era u offset dst length flags) p v w ↔
      (StoreChecked offset flags → flags &&& Flag.seq ≠ 0 ∧ jobBuffer v ∧ jobBuffer w ∨
        ¬jobBuffer v ∧ ¬jobBuffer w ∧ sameUnits length flags v w))

theorem immediatesByValue (machine : Machine) (era : Era) (p : Program) (v w : BitVec 64) :
    ImmediatesExact machine era p v w where
  first _ _ _ _ _ immed := firstByValue immed
  second _ _ _ _ _ immed2 := secondByValue immed2
  store _ _ _ _ immed value := storeByValue immed value

theorem registersAsValues :
    let machine : Machine := { bigEndian := false, dma := false, memory := fun _ => 0, external := fun _ => 0 }
    let p := rtaProgramCntxtInit (fun _ => 0) 0
    let math0 : BitVec 64 := Reg.math0.setWidth 64
    ¬ByValue false false 1 0 (fun u => rtaMath false 7 u 0 math0 Reg.math0 4 Flag.immed) p 80 81 ∧
      ¬ByValue false false 1 0 (fun u => rtaMath false 7 math0 0 u Reg.math0 4 Flag.immed2) p 41 81 ∧
      ¬ByValue false false 1 0 (fun u => rtaMath false 7 math0 Math.zbyt u Reg.math0 4 Flag.immed2) p 80 81 ∧
      ¬ByValue false false 2 0 (fun u => rtaStore machine 7 u 0 0x1000 4 Flag.immed) p 33 81 ∧
      ¬ByValue false false 2 0 (fun u => rtaStore machine 7 u 0 0x1000 4 Flag.immed) p 32 81 := by
  intro machine p math0
  refine ⟨fun same => absurd same.result (by decide), fun same => absurd same.result (by decide),
    fun same => absurd same.result (by decide), fun same => absurd same.count (by decide),
    fun same => absurd same.opcode (by decide)⟩

end Flexbuild.Rta
