import Flexbuild.SoftCodeRuns

/-! The loop of a checksum expression: eight bytes at a time while more than seven are left, the last
ones one by one and shifted to an even count. The count is one byte of the result array. -/
namespace Flexbuild.SoftCode
open ByteMemory (Byte)
open SoftIr (Word CObject CENode)
open OnesComplement (add)

variable {env : Env} {s : State}

def frameBytes (env : Env) (wo : Word) (k : Nat) : List Byte := (List.range k).map fun i => env.frame
    (wo + BitVec.ofNat 64 i)

def pairs : List Byte → List (BitVec 16)
  | a :: b :: rest => (a ++ b) :: pairs rest
  | [a] => [a ++ 0#8]
  | [] => []

section Bytes

theorem frameAdd (wo : Word) (j k : Nat) :
    frameBytes env wo (j + k) = frameBytes env wo j ++ frameBytes env (wo + BitVec.ofNat 64 j) k := by
  unfold frameBytes
  rw [List.range_add, List.map_append, List.map_map]
  congr 1
  refine List.map_congr_left fun i _ => ?_
  simp only [Function.comp]
  rw [BitVec.add_assoc, BitVec.ofNat_add]

theorem frameLength (wo : Word) (k : Nat) : (frameBytes env wo k).length = k := by
  rw [frameBytes, List.length_map, List.length_range]

theorem pairsAppend : ∀ (front back : List Byte), front.length % 2 = 0 → pairs (front ++ back) = pairs front ++ pairs back
  | [], _, _ => rfl
  | [_], _, even => by simp at even
  | a :: b :: rest, back, even => by
    rw [List.cons_append, List.cons_append, pairs, pairsAppend rest back
      (by simp only [List.length_cons] at even; omega), pairs, List.cons_append]

theorem pairsOdd : ∀ (l : List Byte), l.length % 2 = 1 → pairs (l ++ [0]) = pairs l
  | [], odd => by simp at odd
  | [_], _ => rfl
  | _ :: _ :: rest, odd => by
    rw [List.cons_append, List.cons_append, pairs, pairsOdd rest (by simp only [List.length_cons] at odd; omega), pairs]

theorem pushBitGet (v : Word) (b : Bool) (i : Nat) (inside : i < 64) :
    (pushBit v b).getLsbD i = if i = 0 then b else v.getLsbD (i - 1) := by
  rw [pushBit, BitVec.getLsbD_or, BitVec.getLsbD_shiftLeft, BitVec.getLsbD_setWidth]
  by_cases first : i = 0
  · subst first
    cases b <;> simp
  · rw [if_neg first, BitVec.getLsbD_ofBool]
    have bound : ¬ i < 1 := by omega
    simp [inside, bound, first]

theorem pushByteGet (v : Word) (b : Byte) (i : Nat) (inside : i < 64) :
    (pushByte v b).getLsbD i = if i < 8 then b.getLsbD i else v.getLsbD (i - 8) := by
  rw [pushByte, BitVec.getLsbD_or, BitVec.getLsbD_shiftLeft, BitVec.getLsbD_setWidth]
  by_cases low : i < 8
  · simp [inside, low]
  · have high : b.getLsbD i = false := BitVec.getLsbD_of_ge b i (by omega)
    simp [inside, low, high]

def bitsDown (f : Nat → Bool) : Nat → List Bool
  | 0 => []
  | k + 1 => f k :: bitsDown f k

theorem bitsPushed (f : Nat → Bool) (i : Nat) (inside : i < 64) : ∀ k v,
    ((bitsDown f k).foldl pushBit v).getLsbD i = if i < k then f i else v.getLsbD (i - k) := by
  intro k
  induction k with
  | zero => exact fun _ => rfl
  | succ k later =>
    intro v
    rw [bitsDown, List.foldl_cons, later]
    by_cases low : i < k
    · rw [if_pos low, if_pos (by omega)]
    · rw [if_neg low, pushBitGet _ _ _ (by omega)]
      by_cases here : i = k
      · rw [if_pos (by omega), if_pos (by omega), here]
      · rw [if_neg (by omega), if_neg (by omega)]
        congr 1

theorem eightBits (v : Word) (b : Byte) : (bitsDown b.getLsbD 8).foldl pushBit v = pushByte v b := by
  apply BitVec.eq_of_getLsbD_eq
  intro i inside
  rw [bitsPushed _ _ inside, pushByteGet _ _ _ inside]

theorem byteBits (wo v : Word) (i : Nat) :
    ((List.range' (8 * i) 8).map (env.bit wo)).foldl pushBit v = pushByte v (env.frame (wo + BitVec.ofNat 64 i)) := by
  rw [← eightBits]
  congr 1
  have number (j : Nat) (small : j < 8) : env.bit wo (8 * i + j) =
      (env.frame (wo + BitVec.ofNat 64 i)).getLsbD (7 - j) := by
    rw [Env.bit, Nat.mul_add_mod, Nat.mod_eq_of_lt small, Nat.mul_add_div (by omega), Nat.div_eq_of_lt small, Nat.add_zero]
  have all : List.range' (8 * i) 8 = [0, 1, 2, 3, 4, 5, 6, 7].map (8 * i + ·) := rfl
  simp only [all, List.map_cons, List.map_nil]
  rw [number 0 (by omega), number 1 (by omega), number 2 (by omega), number 3 (by omega), number 4 (by omega),
    number 5 (by omega), number 6 (by omega), number 7 (by omega)]
  rfl

theorem frameBits (wo v : Word) (k : Nat) :
    (((List.range k).flatMap fun i => List.range' (8 * i) 8).map (env.bit wo)).foldl pushBit v =
      (frameBytes env wo k).foldl pushByte v := by
  rw [List.map_flatMap, List.foldl_flatMap, frameBytes, List.foldl_map]
  congr 1
  funext v i
  exact byteBits wo v i

theorem lowPair (v : Word) (a b : Byte) : (pushByte (pushByte v a) b).extractLsb' 0 16 = a ++ b := by
  apply BitVec.eq_of_getLsbD_eq
  intro i inside
  rw [BitVec.getLsbD_extractLsb', BitVec.getLsbD_append, Nat.zero_add, pushByteGet _ _ _ (by omega), decide_eq_true inside,
    Bool.true_and]
  by_cases low : i < 8
  · simp [low]
  · rw [if_neg low, pushByteGet _ _ _ (by omega), if_pos (by omega)]
    simp [low]

theorem highPair (v : Word) (b : Byte) (k : Nat) (room : k + 24 ≤ 64) :
    (pushByte v b).extractLsb' (k + 8) 16 = v.extractLsb' k 16 := by
  apply BitVec.eq_of_getLsbD_eq
  intro i inside
  rw [BitVec.getLsbD_extractLsb', BitVec.getLsbD_extractLsb', pushByteGet _ _ _ (by omega), if_neg (by omega)]
  congr 2
  omega

theorem quartersPairs (v : Word) : ∀ l : List Byte, l.length = 8 → quarters (l.foldl pushByte v) = pairs l
  | [b₀, b₁, b₂, b₃, b₄, b₅, b₆, b₇], _ => by
    simp only [quarters, pairs, List.foldl_cons, List.foldl_nil]
    rw [highPair _ _ 40 (by omega), highPair _ _ 32 (by omega), highPair _ _ 24 (by omega), highPair _ _ 16 (by omega),
      highPair _ _ 8 (by omega), highPair _ _ 0 (by omega), lowPair, highPair _ _ 24 (by omega),
      highPair _ _ 16 (by omega), highPair _ _ 8 (by omega), highPair _ _ 0 (by omega), lowPair,
      highPair _ _ 8 (by omega), highPair _ _ 0 (by omega), lowPair, lowPair]

theorem pairsZero : ∀ k, pairs (List.replicate (2 * k) 0) = List.replicate k 0
  | 0 => rfl
  | k + 1 => by
    rw [Nat.mul_succ, List.replicate_succ, List.replicate_succ, pairs, pairsZero k, List.replicate_succ]
    rfl

theorem pushedZero (k : Nat) : (List.replicate k (0 : Byte)).foldl pushByte 0 = 0 := by
  induction k with
  | zero => rfl
  | succ k later =>
    rw [List.replicate_succ, List.foldl_cons, show pushByte 0 0 = 0 by decide, later]

theorem quartersAdded (r : BitVec 16) (l : List Byte) (even : l.length % 2 = 0) (few : l.length ≤ 8) :
    (quarters (l.foldl pushByte 0)).foldl add r = (pairs l).foldl add r := by
  have padded : l.foldl pushByte 0 = (List.replicate (2 * ((8 - l.length) / 2)) 0 ++ l).foldl pushByte 0 := by
    rw [List.foldl_append, pushedZero]
  rw [padded, quartersPairs _ _ (by simp only [List.length_append, List.length_replicate]; omega),
    pairsAppend _ _ (by simp), pairsZero, List.foldl_append,
    OnesComplement.foldNothing fun a member => List.eq_of_mem_replicate member]

theorem lowBytes (w : Word) : w.extractLsb' 8 8 ++ w.extractLsb' 0 8 = w.setWidth 16 := by
  apply BitVec.eq_of_getLsbD_eq
  intro i inside
  rw [BitVec.getLsbD_append, BitVec.getLsbD_extractLsb', BitVec.getLsbD_extractLsb', BitVec.getLsbD_setWidth]
  by_cases low : i < 8
  · simp [low, inside]
  · have back : 8 + (i - 8) = i := by omega
    have high : i - 8 < 8 := by omega
    simp [low, back, high, inside]

theorem widened (v : BitVec 16) : (v.setWidth 64).setWidth 16 = v := by
  rw [BitVec.setWidth_setWidth_of_le _ (by omega), BitVec.setWidth_eq]

theorem pushedPair (a b : Byte) : pushByte (pushByte 0 a) b = (a ++ b).setWidth 64 := by
  apply BitVec.eq_of_getLsbD_eq
  intro i inside
  rw [pushByteGet _ _ _ inside, BitVec.getLsbD_setWidth, BitVec.getLsbD_append, decide_eq_true inside, Bool.true_and]
  by_cases low : i < 8
  · simp [low]
  · rw [if_neg low, pushByteGet _ _ _ (by omega)]
    by_cases next : i - 8 < 8
    · simp [low, next]
    · have high : a.getLsbD (i - 8) = false := BitVec.getLsbD_of_ge _ _ (by omega)
      simp [low, next, high]

end Bytes

section Loop

def CInstruction.quiet : CInstruction → Bool
  | .loadBitsFwToWr _ _ _ _ field => field.isNone
  | i => i.straight

def Quiet (env : Env) (whole : List CInstruction) (a b : List CInstruction × State) : Prop :=
  ∃ es, (∀ e ∈ es, e.field = none) ∧ Leads env whole a es b

variable {whole code rest : List CInstruction} {n : Nat}

theorem Quiet.of {a b : List CInstruction × State} (leads : Leads env whole a [] b) : Quiet env whole a b :=
  ⟨[], by simp, leads⟩

theorem Quiet.then {a b c : List CInstruction × State} (first : Quiet env whole a b) (second : Quiet env whole b c) :
    Quiet env whole a c := by
  obtain ⟨es, none, leads⟩ := first
  obtain ⟨fs, none', leads'⟩ := second
  refine ⟨es ++ fs, fun e member => ?_, leads.then leads'⟩
  rcases List.mem_append.mp member with front | back
  · exact none e front
  · exact none' e back

theorem quietReads (quiet : ∀ i ∈ code, i.quiet = true) : ∀ s, ∀ e ∈ readsAll env s code, e.field = none := by
  induction code with
  | nil => simp [readsAll]
  | cons i code later =>
    intro s e member
    rcases List.mem_append.mp member with here | back
    · have first := quiet i List.mem_cons_self
      cases i <;> simp [reads] at here
      subst here
      simpa [CInstruction.quiet] using first
    · exact later (fun j member => quiet j (List.mem_cons_of_mem _ member)) _ e back

theorem quietRun (code : List CInstruction) (quiet : ∀ i ∈ code, i.quiet = true) (s : State) :
    Quiet env whole (code ++ rest, s) (rest, execAll env s code) := by
  refine ⟨_, quietReads quiet s, straightLeads (fun i member => ?_) s⟩
  have here := quiet i member
  cases i <;> first | rfl | exact here

def loop (n : Nat) : List CInstruction := checksumLoop (gpr2Object 5 5) (gpr2Object 6 7) n

structure Placed (whole : List CInstruction) (n : Nat) (after : List CInstruction) : Prop where
  loop : findLabel n whole = some ((loop n).drop 1 ++ after)
  minor : findLabel (n + 1) whole = some ((SoftCode.loop n).drop 5 ++ after)
  even : findLabel (n + 2) whole = some ((SoftCode.loop n).drop 15 ++ after)
  major : findLabel (n + 3) whole = some ((SoftCode.loop n).drop 19 ++ after)
  last : findLabel (n + 4) whole = some ((SoftCode.loop n).drop 32 ++ after)

theorem placed {before : List CInstruction} (plain : Straight before) (n : Nat) (after : List CInstruction) :
    Placed (before ++ (loop n ++ after)) n after := by
  refine ⟨?_, ?_, ?_, ?_, ?_⟩ <;> rw [findPast plain] <;>
    simp [loop, checksumLoop, findLabel, loadBytes, storeWr]

def State.left (s : State) : Byte := s.ra 13
def State.sum (s : State) : BitVec 16 := s.ra 14 ++ s.ra 15

theorem quietStep {i : CInstruction} (quiet : i.quiet = true) (s : State) :
    Quiet env whole (i :: rest, s) (rest, exec env s i) :=
  quietRun [i] (by simpa using quiet) s

theorem loadLeft (s : State) : Quiet env whole (loadBytes .wr0 false (gpr2Object 5 5) :: rest, s)
    (rest, { s with wr0 := s.left.setWidth 64 }) := by
  have one : pushByte 0 s.left = s.left.setWidth 64 := by simp [pushByte]
  rw [← one]
  exact quietStep rfl s

theorem loadSum (s : State) : Quiet env whole (loadBytes .wr0 false (gpr2Object 6 7) :: rest, s)
    (rest, { s with wr0 := s.sum.setWidth 64 }) := by
  rw [State.sum, ← pushedPair]
  exact quietStep rfl s

variable {after : List CInstruction} (at_ : Placed whole n after)
include at_

theorem minorTurn (s : State) : Quiet env whole ((loop n).drop 5 ++ after, s)
    (if s.wr0 - 1 = 0 then (loop n).drop 10 ++ after else (loop n).drop 5 ++ after,
      { s with wr0 := s.wr0 - 1, wr1 := pushByte s.wr1 (env.frame s.wo), wo := s.wo + 1 }) := by
  have ran := @quietRun env whole ((loop n).drop 9 ++ after)
    [.nop, .loadBitsFwToWr .wr1 true 0 7 none, .subWrIvToWr .wr0 .wr0 1, .addSvToWo 1] (by decide) s
  have read := @frameBits env s.wo s.wr1 1
  have state : execAll env s [.nop, .loadBitsFwToWr .wr1 true 0 7 none, .subWrIvToWr .wr0 .wr0 1, .addSvToWo 1] =
      { s with wr0 := s.wr0 - 1, wr1 := pushByte s.wr1 (env.frame s.wo), wo := s.wo + 1 } := by
    have byte : frameBytes env s.wo 1 = [env.frame s.wo] := by simp [frameBytes]
    rw [byte] at read
    simp only [execAll, List.foldl_cons, List.foldl_nil, exec, State.set, State.get, State.base, if_true]
    rw [show places 0 7 = (List.range 1).flatMap fun i => List.range' (8 * i) 8 by rfl, read]
    rfl
  rw [state] at ran
  refine ran.then (.of ?_)
  by_cases zero : s.wr0 - 1 = 0
  · rw [if_pos zero]
    refine compareNotTaken ?_
    simp only [CondOperator.holds, zero]
    rfl
  · rw [if_neg zero]
    refine compareTaken at_.minor ?_
    simp only [CondOperator.holds, decide_eq_true_eq]
    exact (BitVec.pos_iff_ne_zero _).mpr zero

theorem minorLoop (c : Nat) : ∀ s, c + 1 ≤ 2 ^ 64 → s.wr0 = BitVec.ofNat 64 (c + 1) →
    Quiet env whole ((loop n).drop 5 ++ after, s) ((loop n).drop 10 ++ after,
      { s with wr0 := 0, wr1 := (frameBytes env s.wo (c + 1)).foldl pushByte s.wr1,
               wo := s.wo + BitVec.ofNat 64 (c + 1) }) := by
  induction c with
  | zero =>
    intro s _ one
    have turn := @minorTurn env _ _ _ at_ s
    have zero : s.wr0 - 1 = 0 := by
      rw [one]
      rfl
    rw [if_pos zero, zero] at turn
    have byte : frameBytes env s.wo 1 = [env.frame s.wo] := by simp [frameBytes]
    rw [Nat.zero_add, byte]
    exact turn
  | succ c later =>
    intro s room count
    have turn := @minorTurn env _ _ _ at_ s
    have less : s.wr0 - 1 = BitVec.ofNat 64 (c + 1) := by
      rw [count, BitVec.ofNat_add, BitVec.ofNat_add]
      simp
    have some_ : s.wr0 - 1 ≠ 0 := by
      intro zero
      rw [less] at zero
      have number := congrArg BitVec.toNat zero
      rw [BitVec.toNat_ofNat, Nat.mod_eq_of_lt (by omega)] at number
      exact Nat.succ_ne_zero c number
    rw [if_neg some_] at turn
    have run := turn.then (later _ (by omega) less)
    have bytes : frameBytes env s.wo (c + 1 + 1) = env.frame s.wo :: frameBytes env (s.wo + 1) (c + 1) := by
      rw [Nat.add_comm (c + 1) 1, frameAdd]
      simp [frameBytes]
    have offset : s.wo + BitVec.ofNat 64 (c + 1 + 1) = s.wo + 1 + BitVec.ofNat 64 (c + 1) := by
      rw [BitVec.ofNat_add (c + 1) 1, BitVec.add_comm (BitVec.ofNat 64 (c + 1)), ← BitVec.add_assoc]
      rfl
    rw [bytes, offset, List.foldl_cons]
    exact run

theorem parity (s : State) : Quiet env whole ((loop n).drop 10 ++ after, s) ((loop n).drop 15 ++ after,
    { s with wr0 := s.left.setWidth 64 &&& 1,
             wr1 := if s.left.toNat % 2 = 1 then pushByte s.wr1 0 else s.wr1 }) := by
  have first := @loadLeft env whole ((loop n).drop 11 ++ after) s
  have second := @quietStep env whole ((loop n).drop 12 ++ after)
    (.bitwiseWrIvToWr .wr0 .wr0 .and 1) rfl { s with wr0 := s.left.setWidth 64 }
  have low : (s.left.setWidth 64 &&& 1).toNat = s.left.toNat % 2 := by
    rw [BitVec.toNat_and, BitVec.toNat_setWidth, Nat.mod_eq_of_lt (by omega)]
    exact Nat.and_one_is_mod _
  refine first.then (second.then ?_)
  by_cases odd : s.left.toNat % 2 = 1
  · rw [if_pos odd]
    have skip := @compareNotTaken env whole ((loop n).drop 13 ++ after)
      { s with wr0 := s.left.setWidth 64 &&& 1 } (n + 2) .equ 0 (by
        simp only [CondOperator.holds, decide_eq_false_iff_not]
        intro zero
        rw [zero] at low
        rw [odd] at low
        cases low)
    have shift := @quietStep env whole ((loop n).drop 14 ++ after) (.loadBitsIvToWr .wr1 true 0 8) rfl
      { s with wr0 := s.left.setWidth 64 &&& 1 }
    have name := @labelStep env whole ((loop n).drop 15 ++ after)
      { s with wr0 := s.left.setWidth 64 &&& 1, wr1 := pushByte s.wr1 0 } (n + 2)
    exact (Quiet.of skip).then (shift.then (.of name))
  · rw [if_neg odd]
    have zero : s.left.setWidth 64 &&& 1 = (0 : Word) := by
      apply BitVec.eq_of_toNat_eq
      rw [low]
      exact Nat.mod_two_ne_one.mp odd
    exact .of (compareTaken at_.even (decide_eq_true zero))

omit at_ in
theorem finish (s : State) : Quiet env whole ((loop n).drop 32 ++ after, s) (after, { s with wo := 0 }) :=
  quietStep rfl s

theorem lastSum (s : State) : Quiet env whole ((loop n).drop 15 ++ after, s)
    (after, { s with wo := 0, wr0 := ((quarters s.wr1).foldl add s.sum).setWidth 64 }) := by
  have first := @loadSum env whole ((loop n).drop 16 ++ after) s
  have second := @quietStep env whole ((loop n).drop 17 ++ after) .onesCompWr1ToWr0 rfl { s with wr0 := s.sum.setWidth 64 }
  have jump := @jmpStep env _ ((loop n).drop 18 ++ after)
    { s with wr0 := ((quarters s.wr1).foldl add s.sum).setWidth 64 } _ _ at_.last
  have run := first.then second
  simp only [exec, widened] at run
  exact run.then ((Quiet.of jump).then (finish _))

def lastCount (m : Nat) : Nat := if m = 0 then 2 ^ 64 else m

theorem tailRun (few : s.left.toNat ≤ 7) : ∃ s', Quiet env whole ((loop n).drop 1 ++ after, s) (after, s') ∧ s'.wo = 0 ∧
    s'.wr0 = ((quarters ((frameBytes env s.wo (lastCount s.left.toNat) ++
      if s.left.toNat % 2 = 1 then [0] else []).foldl pushByte 0)).foldl add s.sum).setWidth 64 := by
  obtain ⟨d, next, room⟩ : ∃ d, lastCount s.left.toNat = d + 1 ∧ d + 1 ≤ 2 ^ 64 := by
    refine ⟨lastCount s.left.toNat - 1, ?_, ?_⟩ <;> unfold lastCount <;> split <;> omega
  have first := @loadLeft env whole ((loop n).drop 2 ++ after) s
  have under : CondOperator.holds (s.left.setWidth 64) 7 .greater = false := by
    simp only [CondOperator.holds, decide_eq_false_iff_not, BitVec.lt_def, BitVec.toNat_setWidth, Nat.not_lt]
    rw [Nat.mod_eq_of_lt (by omega)]
    exact few
  have skip := @compareNotTaken env whole ((loop n).drop 3 ++ after) { s with wr0 := s.left.setWidth 64 } (n + 3) _ _ under
  have zero := @quietStep env whole ((loop n).drop 4 ++ after) (.zeroWr .wr1) rfl
    { s with wr0 := s.left.setWidth 64 }
  have name := @labelStep env whole ((loop n).drop 5 ++ after) { s with wr0 := s.left.setWidth 64, wr1 := 0 } (n + 1)
  have value : s.left.setWidth 64 = BitVec.ofNat 64 (d + 1) := by
    apply BitVec.eq_of_toNat_eq
    rw [BitVec.toNat_setWidth, BitVec.toNat_ofNat, ← next, lastCount]
    split
    · next none => rw [none, Nat.zero_mod, Nat.mod_self]
    · rfl
  have bytes := @minorLoop env _ _ _ at_ d { s with wr0 := s.left.setWidth 64, wr1 := 0 } room value
  rw [← next] at bytes
  have pushed : (frameBytes env s.wo (lastCount s.left.toNat) ++ if s.left.toNat % 2 = 1 then [0] else []).foldl pushByte 0 =
      if s.left.toNat % 2 = 1 then pushByte ((frameBytes env s.wo (lastCount s.left.toNat)).foldl pushByte 0) 0
      else (frameBytes env s.wo (lastCount s.left.toNat)).foldl pushByte 0 := by
    split
    · rw [List.foldl_append]
      rfl
    · rw [List.append_nil]
  rw [pushed]
  exact ⟨_, first.then ((Quiet.of skip).then (zero.then ((Quiet.of name).then
    (bytes.then ((parity at_ _).then (lastSum at_ _)))))), rfl, rfl⟩

omit at_ in
theorem storedSum (s : State) (w : Word) :
    (s.store 14 15 w).sum = w.setWidth 16 ∧ (s.store 14 15 w).left = s.left := by
  refine ⟨?_, rfl⟩
  rw [← lowBytes w]
  rfl

theorem majorSum (many : 8 ≤ s.left.toNat) : Quiet env whole ((loop n).drop 1 ++ after, s) ((loop n).drop 23 ++ after,
    { s with wr0 := ((pairs (frameBytes env s.wo 8)).foldl add s.sum).setWidth 64,
             wr1 := (frameBytes env s.wo 8).foldl pushByte 0 }) := by
  have first := @loadLeft env whole ((loop n).drop 2 ++ after) s
  have above : CondOperator.holds (s.left.setWidth 64) 7 .greater = true := by
    have small := s.left.isLt
    simp only [CondOperator.holds, decide_eq_true_eq, BitVec.lt_def, BitVec.toNat_setWidth]
    rw [Nat.mod_eq_of_lt (by omega)]
    exact many
  have enter := @compareTaken env whole ((loop n).drop 3 ++ after)
    { s with wr0 := s.left.setWidth 64 } _ _ _ _ at_.major above
  have read := @quietRun env whole ((loop n).drop 21 ++ after)
    [.nop, .loadBitsFwToWr .wr1 false 0 63 none] (by decide) { s with wr0 := s.left.setWidth 64 }
  have state : execAll env { s with wr0 := s.left.setWidth 64 } [.nop, .loadBitsFwToWr .wr1 false 0 63 none] =
      { s with wr0 := s.left.setWidth 64, wr1 := (frameBytes env s.wo 8).foldl pushByte 0 } := by
    rw [← frameBits]
    rfl
  rw [state] at read
  have load := @loadSum env whole ((loop n).drop 22 ++ after)
    { s with wr0 := s.left.setWidth 64, wr1 := (frameBytes env s.wo 8).foldl pushByte 0 }
  have ones := @quietStep env whole ((loop n).drop 23 ++ after) .onesCompWr1ToWr0 rfl
    { s with wr0 := s.sum.setWidth 64, wr1 := (frameBytes env s.wo 8).foldl pushByte 0 }
  simp only [exec, widened, quartersPairs _ _ (frameLength s.wo 8)] at ones
  exact first.then ((Quiet.of enter).then (read.then (load.then ones)))

omit at_ in
theorem majorStore (v : BitVec 16) (same : s.wr0 = v.setWidth 64) : ∃ s',
    Quiet env whole ((loop n).drop 23 ++ after, s) ((loop n).drop 25 ++ after, s') ∧
      s'.sum = v ∧ s'.left = s.left ∧ s'.wo = s.wo + 8 := by
  obtain ⟨sum, left⟩ := storedSum s s.wr0
  have isV : s.wr0.setWidth 16 = v := by rw [same, widened]
  have store := @quietStep env whole ((loop n).drop 24 ++ after) (storeWr (gpr2Object 6 7) .wr0) rfl s
  have advance := @quietStep env whole ((loop n).drop 25 ++ after) (.addSvToWo 8) rfl (s.store 14 15 s.wr0)
  exact ⟨_, store.then advance, sum.trans isV, left, rfl⟩

theorem majorCount (many : 8 ≤ s.left.toNat) : ∃ s', Quiet env whole ((loop n).drop 25 ++ after, s)
      (if s.left.toNat = 8 then (loop n).drop 29 ++ after else (loop n).drop 1 ++ after, s') ∧
    s'.left.toNat = s.left.toNat - 8 ∧ s'.sum = s.sum ∧ s'.wo = s.wo := by
  have small := s.left.isLt
  have again := @loadLeft env whole ((loop n).drop 26 ++ after) s
  have less := @quietStep env whole ((loop n).drop 27 ++ after) (.subWrIvToWr .wr0 .wr0 8) rfl
    { s with wr0 := s.left.setWidth 64 }
  obtain ⟨d, isD⟩ : ∃ d : Word, d = s.left.setWidth 64 - 8 := ⟨_, rfl⟩
  have keep := @quietStep env whole ((loop n).drop 28 ++ after) (storeWr (gpr2Object 5 5) .wr0) rfl { s with wr0 := d }
  have number : d.toNat = s.left.toNat - 8 := by
    rw [isD, BitVec.toNat_sub_of_le, BitVec.toNat_setWidth, Nat.mod_eq_of_lt (by omega)]
    · rfl
    · rw [BitVec.le_def, BitVec.toNat_setWidth, Nat.mod_eq_of_lt (by omega)]
      exact many
  have zero : d = 0 ↔ s.left.toNat = 8 := by
    rw [← BitVec.toNat_inj, number]
    have none : (0 : Word).toNat = 0 := rfl
    rw [none]
    omega
  have run : Quiet env whole ((loop n).drop 25 ++ after, s) ((loop n).drop 27 ++ after, { s with wr0 := d }) := by
    rw [isD]
    exact again.then less
  have compared : Quiet env whole ((loop n).drop 28 ++ after, { s with wr0 := d }.store 13 13 d)
      (if s.left.toNat = 8 then (loop n).drop 29 ++ after else (loop n).drop 1 ++ after,
        { s with wr0 := d }.store 13 13 d) := by
    by_cases last : s.left.toNat = 8
    · rw [if_pos last]
      refine .of (compareNotTaken (decide_eq_false ?_))
      exact fun positive => (BitVec.pos_iff_ne_zero d).mp positive (zero.mpr last)
    · rw [if_neg last]
      refine .of (compareTaken at_.loop (decide_eq_true ?_))
      exact (BitVec.pos_iff_ne_zero d).mpr fun none => last (zero.mp none)
  have left : ({ s with wr0 := d }.store 13 13 d).left = d.extractLsb' 0 8 := rfl
  refine ⟨_, run.then (keep.then compared), ?_, rfl, rfl⟩
  rw [left, BitVec.extractLsb'_toNat, number, Nat.shiftRight_zero]
  omega

theorem majorTurn (many : 8 ≤ s.left.toNat) : ∃ s', Quiet env whole ((loop n).drop 1 ++ after, s)
      (if s.left.toNat = 8 then (loop n).drop 29 ++ after else (loop n).drop 1 ++ after, s') ∧
    s'.left.toNat = s.left.toNat - 8 ∧ s'.sum = (pairs (frameBytes env s.wo 8)).foldl add s.sum ∧ s'.wo = s.wo + 8 := by
  have first := @majorSum env _ _ _ _ at_ many
  obtain ⟨t, store, sum, left, offset⟩ := @majorStore env
    { s with wr0 := ((pairs (frameBytes env s.wo 8)).foldl add s.sum).setWidth 64,
             wr1 := (frameBytes env s.wo 8).foldl pushByte 0 }
    whole n after _ rfl
  have same : t.left = s.left := left
  obtain ⟨u, count, less, kept, still⟩ := @majorCount env t _ _ _ at_ (by rw [same]; exact many)
  rw [same] at count less
  exact ⟨u, first.then (store.then count), less, kept.trans sum, still.trans offset⟩

-- The bytes that the loop adds for a count. There is no end before `2 ^ 64` bytes when it is zero, and the
-- last eight of them are those in front of the section.
def counted (env : Env) (wo : Word) (m : Nat) : List Byte :=
  if m = 0 then frameBytes env (wo - 8) 8 else frameBytes env wo m

omit at_ in
theorem tailBytes (wo : Word) (r : BitVec 16) {m : Nat} (few : m ≤ 7) :
    (quarters ((frameBytes env wo (lastCount m) ++ if m % 2 = 1 then [0] else []).foldl pushByte 0)).foldl add r =
      (pairs (counted env wo m)).foldl add r := by
  unfold counted lastCount
  by_cases none : m = 0
  · subst none
    rw [if_pos rfl, if_pos rfl, if_neg (by omega), List.append_nil]
    obtain ⟨k, all⟩ : ∃ k, (2 : Nat) ^ 64 = k + 8 := ⟨2 ^ 64 - 8, by omega⟩
    have back : wo + BitVec.ofNat 64 k = wo - 8 := by
      have size : BitVec.ofNat 64 k = -(8 : Word) := by
        apply BitVec.eq_of_toNat_eq
        rw [BitVec.toNat_ofNat, Nat.mod_eq_of_lt (by omega)]
        have value : k = 2 ^ 64 - 8 := by omega
        rw [value]
        rfl
      rw [size, BitVec.sub_eq_add_neg]
    rw [all, frameAdd, back, List.foldl_append, quartersPairs _ _ (frameLength _ _)]
  · rw [if_neg none, if_neg none]
    by_cases odd : m % 2 = 1
    · rw [if_pos odd, quartersAdded _ _ (by rw [List.length_append, frameLength]; simp; omega)
        (by rw [List.length_append, frameLength]; simp; omega), pairsOdd _ (by rw [frameLength]; exact odd)]
    · rw [if_neg odd, List.append_nil, quartersAdded _ _ (by rw [frameLength]; omega) (by rw [frameLength]; omega)]

theorem loopRun (m : Nat) : ∀ s : State, s.left.toNat = m → ∃ s', Quiet env whole ((loop n).drop 1 ++ after, s) (after, s') ∧
    s'.wo = 0 ∧ s'.wr0 = ((pairs (counted env s.wo m)).foldl add s.sum).setWidth 64 := by
  induction m using Nat.strongRecOn with
  | ind m later =>
    intro s isM
    by_cases few : m ≤ 7
    · obtain ⟨s', run, offset, result⟩ := @tailRun env _ _ _ _ at_ (isM ▸ few)
      rw [isM, tailBytes _ _ few] at result
      exact ⟨s', run, offset, result⟩
    · obtain ⟨t, run, left, sum, offset⟩ := @majorTurn env s _ _ _ at_ (by omega)
      rw [isM] at run left
      have parts : pairs (frameBytes env s.wo m) = pairs (frameBytes env s.wo 8) ++ pairs (frameBytes env t.wo (m - 8)) := by
        have whole : m = 8 + (m - 8) := by omega
        rw [offset, ← pairsAppend _ _ (by rw [frameLength]), show s.wo + 8 = s.wo + BitVec.ofNat 64 8 by rfl, ← frameAdd,
          ← whole]
      have none : m ≠ 0 := by omega
      by_cases last : m = 8
      · rw [if_pos last] at run
        have load := @loadSum env whole ((loop n).drop 30 ++ after) t
        have jump := @jmpStep env _ ((loop n).drop 31 ++ after) { t with wr0 := t.sum.setWidth 64 } _ _
          at_.last
        refine ⟨_, run.then (load.then ((Quiet.of jump).then (finish _))), rfl, ?_⟩
        rw [counted, if_neg none, parts, last, List.foldl_append, ← sum]
        rfl
      · rw [if_neg last] at run
        obtain ⟨s', rest, zero, result⟩ := later (m - 8) (by omega) t left
        refine ⟨s', run.then rest, zero, ?_⟩
        have more : m - 8 ≠ 0 := by omega
        rw [result, counted, if_neg more, counted, if_neg none, parts, List.foldl_append, sum]

end Loop
end Flexbuild.SoftCode
