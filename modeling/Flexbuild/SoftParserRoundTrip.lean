import Flexbuild.SoftParserLayout

/-! The words of an instruction decoded. For each kind the decoder gives the operands as the words
hold them, and these are the operands of the program exactly when they fit. -/
namespace Flexbuild.SoftParser
open Opcodes

variable {table : List (String × Nat)} {c d : Coding} {name : String}

theorem Register.small (r : Register) : r.number < 2 := by cases r <;> decide

theorem registerRead {w : Nat} {r : Register} (low : w % 2 = r.number) : registerOf w = r := by
  unfold registerOf
  cases r with
  | wr0 => rw [low]; rfl
  | wr1 => rw [low]; rfl

theorem assignRead {w : Nat} {a : Bool} (low : w % 2 = if a then 0 else 1) : assignOf w = a := by
  unfold assignOf
  cases a with
  | false => rw [low]; rfl
  | true => rw [low]; rfl

theorem shiftSmall (assign : Bool) : (if assign then 0 else 1) < 2 := by cases assign <;> decide

theorem addressMod (type : InstructionType) (name : String) :
    address table type name = counter table type name % 2 ^ 10 :=
  Nat.and_two_pow_sub_one_eq_mod _ 10

theorem valueRead (n v : Nat) : valueOf (immediateWords n v) = v % 2 ^ (16 * n) := by
  have same : immediateWords n v = limbs 16 n v := by
    simp only [immediateWords, limbs, ← Nat.and_two_pow_sub_one_eq_mod]
  rw [valueOf, same, limbsValue, ← Nat.pow_mul]

theorem valueKept {n v : Nat} (small : v < 2 ^ (16 * n)) : valueOf (immediateWords n v) = v := by
  rw [valueRead, Nat.mod_eq_of_lt small]

theorem cutKept {x n : Nat} (positive : n ≠ 0) : x % n = x ↔ x < n := Nat.mod_eq_iff_lt positive

theorem immediateKept {n iv : Nat} (few : n ≤ 4) :
    strtoull iv % 2 ^ (16 * n) = iv ↔ iv < 2 ^ (16 * n) := by
  have top : 2 ^ (16 * n) ≤ 2 ^ 64 := Nat.pow_le_pow_right (by decide) (by omega)
  constructor
  · intro same
    rw [← same]
    exact Nat.mod_lt _ (Nat.two_pow_pos _)
  · intro small
    rw [show strtoull iv = iv by unfold strtoull; omega, Nat.mod_eq_of_lt small]

theorem processedPlain (done : processInstruction table c = some d) (labels : c.jumpLabels = []) :
    d = c := by
  obtain ⟨pcs, all, last⟩ := Option.bind_eq_some_iff.mp done
  rw [labels] at all
  cases all
  split at last
  all_goals
    cases Option.some.inj last
    rfl

section Targets

theorem addressSmall (table : List (String × Nat)) (type : InstructionType) (name : String) :
    address table type name < 2 ^ 10 := by
  rw [addressMod]
  exact Nat.mod_lt _ (by decide)

theorem jumpDecoded {hxs : Bool}
    (done : processInstruction table (jmpLabelAction name hxs) = some d) :
    decode (emit d) = some (.jump hxs (address table .jump name)) := by
  have small := addressSmall table .jump name
  have flag := Bool.toNat_lt hxs
  have word : (if hxs then 0x1800 ||| 0x0400 else 0x1800) ||| address table .jump name =
      0x1800 + hxs.toNat * 2 ^ 10 + address table .jump name := by
    cases hxs with
    | false => exact joined 10 (by decide) small
    | true => exact joined 10 (by decide) small
  have bit : (0x1800 + hxs.toNat * 2 ^ 10 + address table .jump name).testBit 10 = hxs := by
    rw [Nat.testBit_eq_decide_div_mod_eq]
    cases hxs with
    | false => simp only [Bool.toNat_false, decide_eq_false_iff_not]; omega
    | true => simp only [Bool.toNat_true, decide_eq_true_eq]; omega
  rw [targetJoined done (.inl rfl) rfl rfl rfl]
  change decode [_ ||| address table .jump name] = _
  rw [word, decodeRow 0x1800 11 .jump (by decide) (by omega) (by omega) rfl]
  simp only [decodeOperands, bit]
  congr 2
  omega

theorem compareRegsDecoded {operator : Comparison}
    (done : processInstruction table (jmpLabelIfWr0Wr1Action name operator) = some d) :
    decode (emit d) =
      some (.compareWorkingRegs operator (address table .compareWorkingRegs name % 2 ^ 10)) := by
  rw [targetsPlaced done (by simp [jmpLabelIfWr0Wr1Action]) (by simp [jmpLabelIfWr0Wr1Action])
    rfl rfl rfl]
  cases operator <;> rfl

theorem immediateComparisonRead (operator : ImmediateComparison) :
    immediateComparisonOf operator.number = some operator ∧ operator.number < 4 := by
  cases operator <;> exact ⟨rfl, by decide⟩

theorem compareIvDecoded {operator : ImmediateComparison} {iv : Nat}
    (done : processInstruction table (jmpLabelIfWr0IvAction name operator iv) = some d) :
    decode (emit d) =
      some (.compareWr0ToIv operator (strtoull iv) (address table .compareWr0ToIv name)) := by
  obtain ⟨size, few, wide, words⟩ := compareWords name operator iv
  obtain ⟨read, four⟩ := immediateComparisonRead operator
  have small := addressSmall table .compareWr0ToIv name
  have word : uint16 (0x4000 ||| operator.number <<< 12 ||| size <<< 10) |||
      address table .compareWr0ToIv name =
        0x4000 + operator.number * 2 ^ 12 + size * 2 ^ 10 + address table .compareWr0ToIv name := by
    rw [joinedAt 12 2 (by decide) four, joinedAt 10 2 (by omega) few, uint16,
      Nat.mod_eq_of_lt (by omega)]
    exact joined 10 (by omega) small
  rw [targetJoined done (.inr rfl) words rfl (compareSound _ _ _).filled]
  change decode ((_ ||| address table .compareWr0ToIv name) :: _) = _
  rw [word, decodeRow 0x4000 14 .compareWr0ToIv (by decide) (by omega) (by omega)]
  · have field : (0x4000 + operator.number * 2 ^ 12 + size * 2 ^ 10 +
        address table .compareWr0ToIv name) / 2 ^ 12 % 2 ^ 2 = operator.number := by omega
    rw [decodeOperands, field, read, valueRead, Nat.mod_eq_of_lt wide, Option.map_some]
    congr 2
    omega
  · rw [immediateWordsLength, immediates]
    omega

variable {b1 b2 b3 b4 : Branch String}

def Branch.read (table : List (String × Nat)) (type : InstructionType) (b : Branch String) :
    Branch Nat :=
  ⟨b.hxs, address table type b.target % 2 ^ 10⟩

theorem case1DjDecoded (done : processInstruction table (jmpLabelCase1djAction b1 b2) = some d) :
    decode (emit d) = some (.case1Dj (b1.read table .case1Dj) (b2.read table .case1Dj)) := by
  rw [caseStored (by simp) (by simp) done]
  obtain ⟨h1, t1⟩ := b1
  obtain ⟨h2, t2⟩ := b2
  simp only [hxsBits]
  cases h1 <;> cases h2 <;> rfl

theorem case2DcDecoded (done : processInstruction table (jmpLabelCase2dcAction b1 b2) = some d) :
    decode (emit d) = some (.case2Dc (b1.read table .case2Dc) (b2.read table .case2Dc)) := by
  rw [caseStored (by simp) (by simp) done]
  obtain ⟨h1, t1⟩ := b1
  obtain ⟨h2, t2⟩ := b2
  simp only [hxsBits]
  cases h1 <;> cases h2 <;> rfl

theorem case2DjDecoded
    (done : processInstruction table (jmpLabelCase2djAction b1 b2 b3) = some d) :
    decode (emit d) = some (.case2Dj (b1.read table .case2Dj) (b2.read table .case2Dj)
      (b3.read table .case2Dj)) := by
  rw [caseStored (by simp) (by simp) done]
  obtain ⟨h1, t1⟩ := b1
  obtain ⟨h2, t2⟩ := b2
  obtain ⟨h3, t3⟩ := b3
  simp only [hxsBits]
  cases h1 <;> cases h2 <;> cases h3 <;> rfl

theorem case3DcDecoded
    (done : processInstruction table (jmpLabelCase3dcAction b1 b2 b3) = some d) :
    decode (emit d) = some (.case3Dc (b1.read table .case3Dc) (b2.read table .case3Dc)
      (b3.read table .case3Dc)) := by
  rw [caseStored (by simp) (by simp) done]
  obtain ⟨h1, t1⟩ := b1
  obtain ⟨h2, t2⟩ := b2
  obtain ⟨h3, t3⟩ := b3
  simp only [hxsBits]
  cases h1 <;> cases h2 <;> cases h3 <;> rfl

theorem case3DjDecoded
    (done : processInstruction table (jmpLabelCase3djAction b1 b2 b3 b4) = some d) :
    decode (emit d) = some (.case3Dj (b1.read table .case3Dj) (b2.read table .case3Dj)
      (b3.read table .case3Dj) (b4.read table .case3Dj)) := by
  rw [caseStored (by simp) (by simp) done]
  obtain ⟨h1, t1⟩ := b1
  obtain ⟨h2, t2⟩ := b2
  obtain ⟨h3, t3⟩ := b3
  obtain ⟨h4, t4⟩ := b4
  simp only [hxsBits]
  cases h1 <;> cases h2 <;> cases h3 <;> cases h4 <;> rfl

theorem case4DcDecoded
    (done : processInstruction table (jmpLabelCase4dcAction b1 b2 b3 b4) = some d) :
    decode (emit d) = some (.case4Dc (b1.read table .case4Dc) (b2.read table .case4Dc)
      (b3.read table .case4Dc) (b4.read table .case4Dc)) := by
  rw [caseStored (by simp) (by simp) done]
  obtain ⟨h1, t1⟩ := b1
  obtain ⟨h2, t2⟩ := b2
  obtain ⟨h3, t3⟩ := b3
  obtain ⟨h4, t4⟩ := b4
  simp only [hxsBits]
  cases h1 <;> cases h2 <;> cases h3 <;> cases h4 <;> rfl

end Targets

section Ranges
variable {first last : Nat} {wr : Register} {assign : Bool}

theorem decValueUnsigned {n : Nat} {x : Int} (read : decValue n = some x) :
    uint32 x = n % 2 ^ 32 ∧ (0 ≤ x → x.toNat = n % 2 ^ 32) := by
  unfold decValue strtolErrno at read
  split at read
  · cases read
  · rename_i fits
    have whole : strtol n = n := by
      unfold strtol
      simp at fits
      omega
    rw [whole] at read
    cases Option.some.inj read
    unfold uint32
    constructor
    · split_ifs <;> omega
    · intro positive
      split_ifs at positive ⊢ <;> omega

theorem rangeAccepted {start stop : Nat}
    (range : resultArrayRangeAction first last false = some (start, stop)) :
    start = first % 2 ^ 32 ∧ stop = last % 2 ^ 32 ∧ start ≤ stop ∧ stop < 2 ^ 7 ∧
      stop - start < 2 ^ 3 := by
  simp only [resultArrayRangeAction, bind, Option.bind_eq_some_iff] at range
  obtain ⟨x, readFirst, y, readLast, checks⟩ := range
  have one := (decValueUnsigned readFirst).2
  have two := (decValueUnsigned readLast).2
  split_ifs at checks
  cases Option.some.inj checks
  omega

theorem loadBytesRaDecoded (coded : loadBytesRaToWrAction wr assign first last = some c) :
    decode (emit c) = some (.loadBytesRaToWr wr assign (first % 2 ^ 32) (last % 2 ^ 32)) := by
  obtain ⟨⟨start, stop⟩, range, done⟩ := Option.bind_eq_some_iff.mp coded
  cases Option.some.inj done
  obtain ⟨one, two, order, high, length⟩ := rangeAccepted range
  rw [← one, ← two]
  have low := wr.small
  have flag := shiftSmall assign
  change decode [uint16 (0x3000 ||| (if assign then 0 else 1) <<< 11 ||| stop <<< 4 |||
    (stop - start) <<< 1 ||| wr.number)] = _
  generalize shift : (if assign then 0 else 1) = s at flag
  rw [joinedAt 11 1 (by decide) flag, joinedAt 4 7 (by omega) high, joinedAt 1 3 (by omega) length,
    joined 1 (by omega) low, uint16, Nat.mod_eq_of_lt (by omega)]
  generalize word : 0x3000 + s * 2 ^ 11 + stop * 2 ^ 4 + (stop - start) * 2 ^ 1 + wr.number = w
  have ends : w / 2 ^ 4 % 2 ^ 7 = stop := by omega
  have gap : w / 2 % 2 ^ 3 = stop - start := by omega
  rw [decodeRow 0x3000 12 .loadBytesRaToWr (by decide) (by omega) (by omega) rfl]
  simp only [decodeOperands, ends, gap, registerRead (r := wr) (w := w) (by omega),
    assignRead (a := assign) (w := w / 2 ^ 11) (by omega), Nat.sub_sub_self order]

theorem storeWrToRaDecoded (coded : storeWrToRaAction first last wr = some c) :
    decode (emit c) = some (.storeWrToRa (first % 2 ^ 32) (last % 2 ^ 32) wr) := by
  obtain ⟨⟨start, stop⟩, range, done⟩ := Option.bind_eq_some_iff.mp coded
  cases Option.some.inj done
  obtain ⟨one, two, order, high, length⟩ := rangeAccepted range
  have low := wr.small
  change decode [uint16 (0x2800 ||| (stop - start) <<< 8 ||| stop <<< 1 ||| wr.number)] = _
  rw [joinedAt 8 3 (by decide) length, joinedAt 1 7 (by omega) high, joined 1 (by omega) low, uint16,
    Nat.mod_eq_of_lt (by omega),
    decodeRow 0x2800 11 .storeWrToRa (by decide) (by omega) (by omega) rfl, decodeOperands,
    registerRead (r := wr) (by omega)]
  congr 2 <;> omega

theorem ivWordsHalf {bytes words : Nat} (count : ivWords bytes = some words) :
    words = (bytes - 1) / 2 + 1 ∧ words ≤ 4 := by
  unfold ivWords at count
  split at count <;> cases count <;> decide

theorem storeIvToRaDecoded {iv : Nat} (coded : storeIvToRaAction first last iv = some c) :
    let words := (last % 2 ^ 32 - first % 2 ^ 32) / 2 + 1
    words ≤ 4 ∧ decode (emit c) =
      some (.storeIvToRa (first % 2 ^ 32) (last % 2 ^ 32) (strtoull iv % 2 ^ (16 * words))) := by
  have filled := (storeIvSound coded).filled
  obtain ⟨⟨start, stop⟩, range, done⟩ := Option.bind_eq_some_iff.mp coded
  obtain ⟨words, count, last⟩ := Option.bind_eq_some_iff.mp done
  obtain ⟨one, two, order, high, length⟩ := rangeAccepted range
  have bytes : uint8 (stop - start + 1) = stop - start + 1 := Nat.mod_eq_of_lt (by omega)
  rw [bytes] at count
  obtain ⟨half, few⟩ := ivWordsHalf count
  have valid : (if words = 1 then 2 else if words = 2 then 3 else if words = 3 then 4 else 5) - 1 =
      words := by
    split_ifs <;> omega
  cases Option.some.inj last
  rw [← one, ← two]
  refine ⟨by omega, ?_⟩
  rw [emitFilled filled]
  simp only [bytes, valid, Nat.add_sub_cancel]
  rw [joinedAt 7 3 (by decide) length, joined 7 (by omega) high, uint16,
    Nat.mod_eq_of_lt (by omega)]
  generalize word : 0x0800 + (stop - start) * 2 ^ 7 + stop = w
  have ends : w % 2 ^ 7 = stop := by omega
  have gap : w / 2 ^ 7 % 2 ^ 3 = stop - start := by omega
  rw [decodeRow 0x0800 10 .storeIvToRa (by decide) (by omega) (by omega)]
  · simp only [decodeOperands, ends, gap, valueRead, half, Nat.add_sub_cancel,
      Nat.sub_sub_self order]
  · rw [immediateWordsLength, immediates, gap, half, Nat.add_sub_cancel]

theorem loadRangeAccepted {type : InstructionType} {code maxIndex maxLength shiftBit endBit : Nat}
    (coded : loadRange type code maxIndex maxLength shiftBit endBit wr assign first last = some c) :
    last % 2 ^ 32 ≤ maxIndex ∧ first % 2 ^ 32 ≤ last % 2 ^ 32 ∧
      last % 2 ^ 32 - first % 2 ^ 32 ≤ maxLength ∧
      c = oneWord type (code ||| (if assign then 0 else 1) <<< shiftBit |||
        (last % 2 ^ 32) <<< endBit ||| (last % 2 ^ 32 - first % 2 ^ 32) <<< 1 ||| wr.number) := by
  simp only [loadRange, bind, Option.bind_eq_some_iff] at coded
  obtain ⟨x, readFirst, y, readLast, checks⟩ := coded
  rw [(decValueUnsigned readFirst).1, (decValueUnsigned readLast).1] at checks
  split_ifs at checks
  all_goals
    cases Option.some.inj checks
    exact ⟨by omega, by omega, by omega, by simp [*]⟩

theorem loadBytesPaDecoded (coded : loadBytesPaToWrAction wr assign first last = some c) :
    decode (emit c) = some (.loadBytesPaToWr wr assign (first % 2 ^ 32) (last % 2 ^ 32)) := by
  obtain ⟨high, order, length, rfl⟩ := loadRangeAccepted coded
  have low := wr.small
  have flag := shiftSmall assign
  generalize first % 2 ^ 32 = start at high order length ⊢
  generalize last % 2 ^ 32 = stop at high order length ⊢
  change decode [uint16 (0x1000 ||| (if assign then 0 else 1) <<< 10 ||| stop <<< 4 |||
    (stop - start) <<< 1 ||| wr.number)] = _
  generalize shift : (if assign then 0 else 1) = s at flag
  rw [joinedAt 10 1 (by decide) flag, joinedAt 4 6 (by omega) (by omega),
    joinedAt 1 3 (by omega) (by omega), joined 1 (by omega) low, uint16,
    Nat.mod_eq_of_lt (by omega)]
  generalize word : 0x1000 + s * 2 ^ 10 + stop * 2 ^ 4 + (stop - start) * 2 ^ 1 + wr.number = w
  have ends : w / 2 ^ 4 % 2 ^ 6 = stop := by omega
  have gap : w / 2 % 2 ^ 3 = stop - start := by omega
  rw [decodeRow 0x1000 11 .loadBytesPaToWr (by decide) (by omega) (by omega) rfl]
  simp only [decodeOperands, ends, gap, registerRead (r := wr) (w := w) (by omega),
    assignRead (a := assign) (w := w / 2 ^ 10) (by omega), Nat.sub_sub_self order]

theorem loadBitsFwDecoded (coded : loadBitsFwToWrAction wr assign first last = some c) :
    decode (emit c) = some (.loadBitsFwToWr wr assign (first % 2 ^ 32) (last % 2 ^ 32)) := by
  obtain ⟨high, order, length, rfl⟩ := loadRangeAccepted coded
  have low := wr.small
  have flag := shiftSmall assign
  generalize first % 2 ^ 32 = start at high order length ⊢
  generalize last % 2 ^ 32 = stop at high order length ⊢
  change decode [uint16 (0x8000 ||| (if assign then 0 else 1) <<< 14 ||| stop <<< 7 |||
    (stop - start) <<< 1 ||| wr.number)] = _
  generalize shift : (if assign then 0 else 1) = s at flag
  rw [joinedAt 14 1 (by decide) flag, joinedAt 7 7 (by omega) (by omega),
    joinedAt 1 6 (by omega) (by omega), joined 1 (by omega) low, uint16,
    Nat.mod_eq_of_lt (by omega)]
  generalize word : 0x8000 + s * 2 ^ 14 + stop * 2 ^ 7 + (stop - start) * 2 ^ 1 + wr.number = w
  have ends : w / 2 ^ 7 % 2 ^ 7 = stop := by omega
  have gap : w / 2 % 2 ^ 6 = stop - start := by omega
  rw [decodeRow 0x8000 15 .loadBitsFwToWr (by decide) (by omega) (by omega) rfl]
  simp only [decodeOperands, ends, gap, registerRead (r := wr) (w := w) (by omega),
    assignRead (a := assign) (w := w / 2 ^ 14) (by omega), Nat.sub_sub_self order]

end Ranges

section Values
variable {wr target source : Register} {sv iv : Nat} {ws : List Nat}

theorem decodedFrom {i : Operation Nat} (decoded : decode ws = some i) :
    ∃ type w rest, rest.length = immediates type w ∧ decodeOperands type w rest = some i := by
  cases ws with
  | nil => cases decoded
  | cons w rest =>
    obtain ⟨type, _, read⟩ := Option.bind_eq_some_iff.mp decoded
    split at read
    · exact ⟨type, w, rest, ‹_›, read⟩
    · cases read

theorem loadSvSmall (decoded : decode ws = some (.loadSvToWo sv)) : sv < 2 ^ 8 := by
  obtain ⟨type, w, rest, _, read⟩ := decodedFrom decoded
  cases type <;> simp [decodeOperands] at read
  omega

theorem addSvSmall (decoded : decode ws = some (.addSvToWo sv)) : sv < 2 ^ 8 := by
  obtain ⟨type, w, rest, _, read⟩ := decodedFrom decoded
  cases type <;> simp [decodeOperands] at read
  omega

theorem loadBitsSmall {assign : Bool} {bits : Nat}
    (decoded : decode ws = some (.loadBitsIvToWr wr assign iv (some bits))) :
    1 ≤ bits ∧ bits ≤ 64 := by
  obtain ⟨type, w, rest, _, read⟩ := decodedFrom decoded
  cases type <;> simp [decodeOperands] at read
  omega

theorem specificValue (small : sv < 2 ^ 8) : uint32 (strtol sv) = sv := by
  unfold uint32 strtol
  omega

theorem loadSvKept : decode (emit (loadSvToWoAction sv)) = some (.loadSvToWo sv) ↔ sv < 2 ^ 8 := by
  refine ⟨loadSvSmall, fun small => ?_⟩
  change decode [uint16 (0x0600 ||| uint32 (strtol sv))] = _
  rw [specificValue small, joined 8 (by decide) small, uint16, Nat.mod_eq_of_lt (by omega),
    decodeRow 0x0600 8 .loadSvToWo (by decide) (by omega) (by omega) rfl, decodeOperands]
  congr 2
  omega

theorem addSvKept : decode (emit (addSvToWoAction sv)) = some (.addSvToWo sv) ↔ sv < 2 ^ 8 := by
  refine ⟨addSvSmall, fun small => ?_⟩
  change decode [uint16 (0x0700 ||| uint32 (strtol sv))] = _
  rw [specificValue small, joined 8 (by decide) small, uint16, Nat.mod_eq_of_lt (by omega),
    decodeRow 0x0700 8 .addSvToWo (by decide) (by omega) (by omega) rfl, decodeOperands]
  congr 2
  omega

theorem strtoullWhole (fits : ¬ strtoullErrno iv = true) : strtoull iv = iv ∧ iv < 2 ^ 64 := by
  unfold strtoullErrno at fits
  rw [decide_eq_true_eq] at fits
  unfold strtoull
  omega

theorem shiftAccepted {type : InstructionType} {code : Nat}
    (coded : bitwiseShift type code wr sv = some c) :
    1 ≤ sv % 2 ^ 8 ∧ sv % 2 ^ 8 ≤ 64 ∧
      c = oneWord type (code ||| (sv % 2 ^ 8 - 1) <<< 1 ||| wr.number) := by
  unfold bitwiseShift at coded
  split at coded
  · cases coded
  · rename_i fits
    simp only [(strtoullWhole fits).1, uint8] at coded
    split_ifs at coded
    cases Option.some.inj coded
    exact ⟨by omega, by omega, rfl⟩

theorem shiftLeftDecoded (coded : bitwiseShiftLeftWrBySvAction wr sv = some c) :
    decode (emit c) = some (.shiftLeftWrBySv wr (sv % 2 ^ 8)) := by
  obtain ⟨some, most, rfl⟩ := shiftAccepted coded
  have low := wr.small
  generalize sv % 2 ^ 8 = v at some most ⊢
  change decode [uint16 (0x0100 ||| (v - 1) <<< 1 ||| wr.number)] = _
  rw [joinedAt 1 6 (by decide) (by omega), joined 1 (by omega) low, uint16,
    Nat.mod_eq_of_lt (by omega),
    decodeRow 0x0100 7 .shiftLeftWrBySv (by decide) (by omega) (by omega) rfl, decodeOperands,
    registerRead (r := wr) (by omega)]
  congr 2
  omega

theorem shiftRightDecoded (coded : bitwiseShiftRightWrBySvAction wr sv = some c) :
    decode (emit c) = some (.shiftRightWrBySv wr (sv % 2 ^ 8)) := by
  obtain ⟨some, most, rfl⟩ := shiftAccepted coded
  have low := wr.small
  generalize sv % 2 ^ 8 = v at some most ⊢
  change decode [uint16 (0x0180 ||| (v - 1) <<< 1 ||| wr.number)] = _
  rw [joinedAt 1 6 (by decide) (by omega), joined 1 (by omega) low, uint16,
    Nat.mod_eq_of_lt (by omega),
    decodeRow 0x0180 7 .shiftRightWrBySv (by decide) (by omega) (by omega) rfl, decodeOperands,
    registerRead (r := wr) (by omega)]
  congr 2
  omega

theorem shiftCount (some : 1 ≤ sv % 2 ^ 8) (most : sv % 2 ^ 8 ≤ 64) :
    sv % 2 ^ 8 = sv ↔ sv ≤ 64 := by
  omega

theorem bitwiseIvDecoded {operator : BitwiseOperator}
    (coded : bitwiseWrIvToWrAction target source operator iv = some c) :
    decode (emit c) = some (.bitwiseWrIvToWr target source operator iv) := by
  have filled := (bitwiseIvSound coded).filled
  unfold bitwiseWrIvToWrAction at coded
  split at coded
  · cases coded
  · rename_i fits
    cases Option.some.inj coded
    obtain ⟨whole, small⟩ := strtoullWhole fits
    rw [emitFilled filled, whole]
    have decoded : decode (uint16 (0x00c0 ||| target.number <<< 5 ||| 3 <<< 3 |||
        operator.number <<< 1 ||| source.number) :: immediateWords 4 iv) =
          some (.bitwiseWrIvToWr target source operator (valueOf (immediateWords 4 iv))) := by
      cases target <;> cases source <;> cases operator <;> rfl
    rw [valueKept (n := 4) small] at decoded
    exact decoded

theorem addsubIvDecoded {operator : AddsubOperator}
    (coded : addsubWrIvToWrAction target source operator iv = some c) :
    decode (emit c) = some (.addsubWrIvToWr target source operator iv) := by
  have filled := (addsubIvSound coded).filled
  unfold addsubWrIvToWrAction at coded
  split at coded
  · cases coded
  · rename_i fits
    obtain ⟨whole, _⟩ := strtoullWhole fits
    obtain ⟨⟨count, size⟩, sized, last⟩ := Option.bind_eq_some_iff.mp coded
    cases Option.some.inj last
    rw [emitFilled filled, whole]
    rw [whole] at sized
    unfold addsubSize at sized
    split_ifs at sized with one two
    · cases sized
      have decoded : decode (uint16 (0x0050 ||| 0 <<< 3 ||| target.number <<< 2 |||
          operator.number <<< 1 ||| source.number) :: immediateWords 1 iv) =
            some (.addsubWrIvToWr target source operator (valueOf (immediateWords 1 iv))) := by
        cases target <;> cases source <;> cases operator <;> rfl
      rw [valueKept (n := 1) one] at decoded
      exact decoded
    · cases sized
      have decoded : decode (uint16 (0x0050 ||| 1 <<< 3 ||| target.number <<< 2 |||
          operator.number <<< 1 ||| source.number) :: immediateWords 2 iv) =
            some (.addsubWrIvToWr target source operator (valueOf (immediateWords 2 iv))) := by
        cases target <;> cases source <;> cases operator <;> rfl
      rw [valueKept (n := 2) two] at decoded
      exact decoded

section LoadBits
variable {assign : Bool} {bits : Nat}

theorem loadBitsWhole (coded : loadBitsIvToWrAction wr iv bits assign = some c) : iv < 2 ^ 64 := by
  unfold loadBitsIvToWrAction at coded
  split at coded
  · cases coded
  · exact (strtoullWhole ‹_›).2

theorem loadBitsDecoded {n : Nat} (count : n = if bits = 0 then autoBits iv else bits)
    (least : 1 ≤ n) (most : n ≤ 64) (coded : loadBitsIvToWrAction wr iv bits assign = some c) :
    decode (emit c) =
      some (.loadBitsIvToWr wr assign (iv % 2 ^ (16 * ((n - 1) / 16 + 1))) (some n)) := by
  have filled := (loadBitsIvSound coded).filled
  unfold loadBitsIvToWrAction at coded
  split at coded
  · cases coded
  rename_i fits
  obtain ⟨whole, small⟩ := strtoullWhole fits
  cases Option.some.inj coded
  rw [emitFilled filled]
  simp only [whole]
  change decode (uint16 (0x0200 ||| (if assign then 0 else 1) <<< 7 |||
    ((if bits = 0 then autoBits iv else bits) - 1) <<< 1 ||| wr.number) :: immediateWords
      ((if (if bits = 0 then autoBits iv else bits) ≤ 16 then 2 else
        if (if bits = 0 then autoBits iv else bits) ≤ 32 then 3 else
        if (if bits = 0 then autoBits iv else bits) ≤ 48 then 4 else 5) - 1) iv) = _
  rw [← count]
  have words : (if n ≤ 16 then 2 else if n ≤ 32 then 3 else if n ≤ 48 then 4 else 5) - 1 =
      (n - 1) / 16 + 1 := by
    split_ifs <;> omega
  rw [words]
  have low := wr.small
  have flag := shiftSmall assign
  generalize shift : (if assign then 0 else 1) = s at flag
  rw [joinedAt 7 1 (by decide) flag, joinedAt 1 6 (by omega) (by omega), joined 1 (by omega) low,
    uint16, Nat.mod_eq_of_lt (by omega)]
  generalize word : 0x0200 + s * 2 ^ 7 + (n - 1) * 2 ^ 1 + wr.number = w
  have field : w / 2 % 2 ^ 6 = n - 1 := by omega
  rw [decodeRow 0x0200 8 .loadBitsIvToWr (by decide) (by omega) (by omega)]
  · simp only [decodeOperands, field, valueRead, registerRead (r := wr) (w := w) (by omega),
      assignRead (a := assign) (w := w / 2 ^ 7) (by omega), Nat.sub_add_cancel least]
  · rw [immediateWordsLength, immediates, field]

theorem autoBitsWide (small : iv < 2 ^ 64) :
    1 ≤ autoBits iv ∧ autoBits iv ≤ 64 ∧ iv < 2 ^ (16 * ((autoBits iv - 1) / 16 + 1)) := by
  unfold autoBits
  split_ifs with one two three
  · exact ⟨by decide, by decide, one⟩
  · exact ⟨by decide, by decide, two⟩
  · exact ⟨by decide, by decide, three⟩
  · exact ⟨by decide, by decide, small⟩

theorem loadBitsAutoKept (coded : loadBitsIvToWrAction wr iv 0 assign = some c) :
    decode (emit c) = some (.loadBitsIvToWr wr assign iv (some (autoBits iv))) := by
  obtain ⟨least, most, wide⟩ := autoBitsWide (loadBitsWhole coded)
  rw [loadBitsDecoded (n := autoBits iv) rfl least most coded, Nat.mod_eq_of_lt wide]

theorem loadBitsKept {x : Int} (read : decValue bits = some x)
    (coded : loadBitsIvToWrAction wr iv (uint8 (uint32 x)) assign = some c) :
    decode (emit c) = some (.loadBitsIvToWr wr assign iv (some bits)) ↔
      1 ≤ bits ∧ bits ≤ 64 ∧ iv < 2 ^ (16 * ((bits - 1) / 16 + 1)) := by
  have exact : 1 ≤ bits → bits ≤ 64 → decode (emit c) =
      some (.loadBitsIvToWr wr assign (iv % 2 ^ (16 * ((bits - 1) / 16 + 1))) (some bits)) := by
    intro least most
    have same : uint8 (uint32 x) = bits := by
      rw [(decValueUnsigned read).1, uint8]
      omega
    rw [same] at coded
    exact loadBitsDecoded (if_neg (by omega)).symm least most coded
  constructor
  · intro decoded
    obtain ⟨least, most⟩ := loadBitsSmall decoded
    rw [exact least most] at decoded
    simp only [Option.some.injEq, Operation.loadBitsIvToWr.injEq, true_and, and_true] at decoded
    exact ⟨least, most, (cutKept (Nat.two_pow_pos _).ne').mp decoded⟩
  · rintro ⟨least, most, wide⟩
    rw [exact least most, Nat.mod_eq_of_lt wide]

end LoadBits

section Lcv
variable {n : Nat} {values : List Value}

theorem orAllLe (n : Nat) (values : List Value) :
    n ≤ values.foldl (fun n v => n ||| v.bits) n := by
  induction values generalizing n with
  | nil => exact Nat.le_refl n
  | cons v values ih => exact Nat.le_trans Nat.left_le_or (ih (n ||| v.bits))

theorem orAllKept : values.foldl (fun n v => n ||| v.bits) n = n ↔
    ∀ v ∈ values, n ||| v.bits = n := by
  induction values generalizing n with
  | nil => simp
  | cons v values ih =>
    rw [List.foldl_cons, List.forall_mem_cons]
    constructor
    · intro all
      have one : n ||| v.bits = n := by
        have grown := orAllLe (n ||| v.bits) values
        rw [all] at grown
        exact Nat.le_antisymm grown Nat.left_le_or
      rw [one] at all
      exact ⟨one, ih.mp all⟩
    · rintro ⟨one, later⟩
      rw [one]
      exact ih.mpr later

theorem lcvDecoded (values : List Value) :
    decode (emit (setLcvBitsAction (.number n) values)) =
      some (.orIvLcv (.number (if 2 ^ 63 ≤ n then 0 else n % 2 ^ 32)) []) := by
  have cut : (if strtolErrno n then 0 else uint32 (strtol n)) =
      if 2 ^ 63 ≤ n then 0 else n % 2 ^ 32 := by
    unfold strtolErrno uint32 strtol
    simp only [decide_eq_true_eq]
    split_ifs <;> omega
  have small : (if 2 ^ 63 ≤ n then 0 else n % 2 ^ 32) < 2 ^ (16 * 2) := by
    split_ifs <;> omega
  have words : emit (setLcvBitsAction (.number n) values) =
      0x0003 :: immediateWords 2 (if strtolErrno n then 0 else uint32 (strtol n)) := rfl
  rw [words, cut]
  generalize (if 2 ^ 63 ≤ n then 0 else n % 2 ^ 32) = v at small ⊢
  change some (Operation.orIvLcv (.number (valueOf (immediateWords 2 v))) []) = _
  rw [valueKept small]

theorem lcvKept : decode (emit (setLcvBitsAction (.number n) values)) =
      some (.orIvLcv (.number (values.foldl (fun n v => n ||| v.bits) n)) []) ↔
    n < 2 ^ 32 ∧ ∀ v ∈ values, n ||| v.bits = n := by
  have grown := orAllLe n values
  rw [lcvDecoded, ← orAllKept]
  simp only [Option.some.injEq, Operation.orIvLcv.injEq, Value.number.injEq, and_true]
  constructor
  · intro same
    split_ifs at same <;> omega
  · rintro ⟨small, same⟩
    rw [same, if_neg (by omega), Nat.mod_eq_of_lt small]

end Lcv

end Values

theorem addressKept (type : InstructionType) (name : String) :
    address table type name = counter table type name ↔ counter table type name < 2 ^ 10 := by
  rw [addressMod]
  exact cutKept (by decide)

theorem branchKept (type : InstructionType) (b : Branch String) :
    b.read table type = ⟨b.hxs, counter table type b.target⟩ ↔
      counter table type b.target < 2 ^ 10 := by
  rw [← addressKept, Branch.read, Branch.mk.injEq, Nat.mod_eq_of_lt (addressSmall table type _)]
  exact and_iff_right rfl

theorem rangeKept {first last : Nat} : first % 2 ^ 32 = first ∧ last % 2 ^ 32 = last ↔
    first < 2 ^ 32 ∧ last < 2 ^ 32 :=
  and_congr (cutKept (by decide)) (cutKept (by decide))

theorem storeIvKept {first last iv : Nat} (coded : storeIvToRaAction first last iv = some c) :
    decode (emit c) = some (.storeIvToRa first last iv) ↔
      first < 2 ^ 32 ∧ last < 2 ^ 32 ∧ iv < 2 ^ (16 * ((last - first) / 2 + 1)) := by
  obtain ⟨few, decoded⟩ := storeIvToRaDecoded coded
  rw [decoded]
  simp only [Option.some.injEq, Operation.storeIvToRa.injEq]
  rw [immediateKept few, ← and_assoc, ← and_assoc, rangeKept]
  refine and_congr_right fun ⟨one, two⟩ => ?_
  rw [Nat.mod_eq_of_lt one, Nat.mod_eq_of_lt two]

theorem encodingKept {op : Operation String} (numeric : op.Numeric) (coded : op.code = some c)
    (done : processInstruction table c = some d) :
    decode (emit d) = some (op.meant (counter table c.type)) ↔
      op.Fits (counter table c.type) := by
  cases op
  case jump hxs target =>
    cases coded
    change decode (emit d) = some (.jump hxs (counter table .jump target)) ↔
      Operation.Fits (counter table .jump) (.jump hxs target)
    rw [jumpDecoded done]
    simpa [Operation.Fits, Operation.targets] using addressKept .jump target
  case compareWorkingRegs operator target =>
    cases coded
    change decode (emit d) =
        some (.compareWorkingRegs operator (counter table .compareWorkingRegs target)) ↔
      Operation.Fits (counter table .compareWorkingRegs) (.compareWorkingRegs operator target)
    rw [compareRegsDecoded done, Nat.mod_eq_of_lt (addressSmall table _ _)]
    simpa [Operation.Fits, Operation.targets] using addressKept .compareWorkingRegs target
  case compareWr0ToIv operator iv target =>
    cases coded
    have value : strtoull iv = iv ↔ iv < 2 ^ 64 := by
      unfold strtoull
      omega
    change decode (emit d) =
        some (.compareWr0ToIv operator iv (counter table .compareWr0ToIv target)) ↔
      iv < 2 ^ 64 ∧ counter table .compareWr0ToIv target < 2 ^ 10
    rw [compareIvDecoded done, ← value, ← addressKept]
    simp only [Option.some.injEq, Operation.compareWr0ToIv.injEq, true_and]
  case case1Dj b1 b2 =>
    cases coded
    change decode (emit d) = some (Operation.meant (counter table .case1Dj) (.case1Dj b1 b2)) ↔
      Operation.Fits (counter table .case1Dj) (.case1Dj b1 b2)
    rw [case1DjDecoded done]
    simpa [Operation.meant, Operation.Fits, Operation.targets] using
      and_congr (branchKept _ _) (branchKept _ _)
  case case2Dc b1 b2 =>
    cases coded
    change decode (emit d) = some (Operation.meant (counter table .case2Dc) (.case2Dc b1 b2)) ↔
      Operation.Fits (counter table .case2Dc) (.case2Dc b1 b2)
    rw [case2DcDecoded done]
    simpa [Operation.meant, Operation.Fits, Operation.targets] using
      and_congr (branchKept _ _) (branchKept _ _)
  case case2Dj b1 b2 b3 =>
    cases coded
    change decode (emit d) = some (Operation.meant (counter table .case2Dj) (.case2Dj b1 b2 b3)) ↔
      Operation.Fits (counter table .case2Dj) (.case2Dj b1 b2 b3)
    rw [case2DjDecoded done]
    simpa [Operation.meant, Operation.Fits, Operation.targets] using
      and_congr (branchKept _ _) (and_congr (branchKept _ _) (branchKept _ _))
  case case3Dc b1 b2 b3 =>
    cases coded
    change decode (emit d) = some (Operation.meant (counter table .case3Dc) (.case3Dc b1 b2 b3)) ↔
      Operation.Fits (counter table .case3Dc) (.case3Dc b1 b2 b3)
    rw [case3DcDecoded done]
    simpa [Operation.meant, Operation.Fits, Operation.targets] using
      and_congr (branchKept _ _) (and_congr (branchKept _ _) (branchKept _ _))
  case case3Dj b1 b2 b3 b4 =>
    cases coded
    change decode (emit d) = some (Operation.meant (counter table .case3Dj) (.case3Dj b1 b2 b3 b4)) ↔
      Operation.Fits (counter table .case3Dj) (.case3Dj b1 b2 b3 b4)
    rw [case3DjDecoded done]
    simpa [Operation.meant, Operation.Fits, Operation.targets] using
      and_congr (branchKept _ _) (and_congr (branchKept _ _) (and_congr (branchKept _ _) (branchKept _ _)))
  case case4Dc b1 b2 b3 b4 =>
    cases coded
    change decode (emit d) = some (Operation.meant (counter table .case4Dc) (.case4Dc b1 b2 b3 b4)) ↔
      Operation.Fits (counter table .case4Dc) (.case4Dc b1 b2 b3 b4)
    rw [case4DcDecoded done]
    simpa [Operation.meant, Operation.Fits, Operation.targets] using
      and_congr (branchKept _ _) (and_congr (branchKept _ _) (and_congr (branchKept _ _) (branchKept _ _)))
  case loadBytesRaToWr wr assign first last =>
    cases processedPlain done (codeLabels coded)
    rw [loadBytesRaDecoded coded]
    simp only [Operation.meant, Option.some.injEq, Operation.loadBytesRaToWr.injEq, true_and]
    exact rangeKept
  case storeWrToRa first last wr =>
    cases processedPlain done (codeLabels coded)
    rw [storeWrToRaDecoded coded]
    simp only [Operation.meant, Option.some.injEq, Operation.storeWrToRa.injEq, and_true]
    exact rangeKept
  case loadBytesPaToWr wr assign first last =>
    cases processedPlain done (codeLabels coded)
    rw [loadBytesPaDecoded coded]
    simp only [Operation.meant, Option.some.injEq, Operation.loadBytesPaToWr.injEq, true_and]
    exact rangeKept
  case loadBitsFwToWr wr assign first last =>
    cases processedPlain done (codeLabels coded)
    rw [loadBitsFwDecoded coded]
    simp only [Operation.meant, Option.some.injEq, Operation.loadBitsFwToWr.injEq, true_and]
    exact rangeKept
  case storeIvToRa first last iv =>
    cases processedPlain done (codeLabels coded)
    exact storeIvKept coded
  case orIvLcv value values =>
    obtain ⟨n, rfl⟩ := numeric value List.mem_cons_self
    cases processedPlain done (codeLabels coded)
    cases coded
    exact lcvKept
  case loadSvToWo sv =>
    cases processedPlain done (codeLabels coded)
    cases coded
    exact loadSvKept
  case addSvToWo sv =>
    cases processedPlain done (codeLabels coded)
    cases coded
    exact addSvKept
  case bitwiseWrWrToWr target left right operator =>
    cases processedPlain done (codeLabels coded)
    cases coded
    have decoded : decode (emit (bitwiseWrWrToWrAction target operator)) =
        some (.bitwiseWrWrToWr target .wr0 .wr1 operator) := by
      cases target <;> cases operator <;> rfl
    rw [decoded]
    cases left <;> cases right <;> simp [Operation.meant, Operation.Fits]
  case bitwiseWrIvToWr target source operator iv =>
    cases processedPlain done (codeLabels coded)
    exact iff_of_true (bitwiseIvDecoded coded) (by simp [Operation.Fits, Operation.targets])
  case addsubWrIvToWr target source operator iv =>
    cases processedPlain done (codeLabels coded)
    exact iff_of_true (addsubIvDecoded coded) (by simp [Operation.Fits, Operation.targets])
  case shiftLeftWrBySv wr sv =>
    cases processedPlain done (codeLabels coded)
    obtain ⟨least, most, _⟩ := shiftAccepted coded
    rw [shiftLeftDecoded coded]
    simp only [Operation.meant, Option.some.injEq, Operation.shiftLeftWrBySv.injEq, true_and]
    exact shiftCount least most
  case shiftRightWrBySv wr sv =>
    cases processedPlain done (codeLabels coded)
    obtain ⟨least, most, _⟩ := shiftAccepted coded
    rw [shiftRightDecoded coded]
    simp only [Operation.meant, Option.some.injEq, Operation.shiftRightWrBySv.injEq, true_and]
    exact shiftCount least most
  case loadBitsIvToWr wr assign iv bits =>
    cases processedPlain done (codeLabels coded)
    cases bits with
    | none =>
      exact iff_of_true (loadBitsAutoKept coded) (by simp [Operation.Fits, Operation.targets])
    | some bits =>
      obtain ⟨x, read, last⟩ := Option.bind_eq_some_iff.mp coded
      exact loadBitsKept read last
  case modifyWoByWr add wr =>
    cases processedPlain done (codeLabels coded)
    cases coded
    cases add <;> cases wr <;> exact iff_of_true rfl (by simp [Operation.Fits, Operation.targets])
  case addsubWrWrToWr target left operator =>
    cases processedPlain done (codeLabels coded)
    cases coded
    cases target <;> cases left <;> cases operator <;>
      exact iff_of_true rfl (by simp [Operation.Fits, Operation.targets])
  case storeWrToLcv wr | loadLcvToWr wr | zeroWr wr =>
    cases processedPlain done (codeLabels coded)
    cases coded
    cases wr <;> exact iff_of_true rfl (by simp [Operation.Fits, Operation.targets])
  all_goals
    cases processedPlain done (codeLabels coded)
    cases coded
    exact iff_of_true rfl (by simp [Operation.Fits, Operation.targets])

theorem encodingKeptCompare :
    ∃ c d, (Operation.compareWr0ToIv .equal 0x12345 "L").code = some c ∧
      processInstruction [("L", 0x40)] c = some d ∧
        decode (emit d) = some (.compareWr0ToIv .equal 0x12345 0x40) := by
  refine ⟨_, _, rfl, rfl, ?_⟩
  exact (@encodingKept [("L", 0x40)] _ _ (.compareWr0ToIv .equal 0x12345 "L") trivial rfl rfl).mpr
    ⟨by decide, by decide⟩

theorem windowOffsetSpilled :
    ∃ c, (Operation.loadSvToWo 0x100).code = some c ∧ processInstruction [] c = some c ∧
      decode (emit c) = some (.addSvToWo 0) ∧
      decode (emit c) ≠ some ((Operation.loadSvToWo 0x100).meant (counter [] c.type)) :=
  ⟨_, rfl, rfl, rfl, by decide⟩

end Flexbuild.SoftParser
