import Mathlib
import Flexbuild.PbiModel

/-! Assembling a PBI section, printing it and assembling the print. For the documented commands
the printed lines give the same words, except that a poll is never assembled and that an
`awrite.b1` is printed as an `awrite`. -/
namespace Flexbuild.Rcw
open Numerals BitStrings

inductive Command where
  | wait (cycles : Nat)
  | write (byte : Bool) (address value : Nat)
  | awrite (byte : Bool) (address value : Nat)
  | poll (opsize : OpSize) (address value mask : Nat)
  | loadacwindow (window : Nat)
  | blockcopy (block source target size : Nat)
  deriving DecidableEq, Repr

def byteSize (byte : Bool) : OpSize := if byte then .b1 else .plain

def Command.parsed : Command → Parsed
  | .wait n => ⟨.wait, .plain, some n, none, none, none⟩
  | .write byte a x => ⟨.write, byteSize byte, some a, some x, none, none⟩
  | .awrite byte a x => ⟨.awrite, byteSize byte, some a, some x, none, none⟩
  | .poll opsize a x m => ⟨.poll, opsize, some a, some x, some m, none⟩
  | .loadacwindow n => ⟨.loadacwindow, .plain, some n, none, none, none⟩
  | .blockcopy b s t n => ⟨.blockcopy, .plain, some b, some s, some t, some n⟩

def Command.InRange : Command → Prop
  | .wait n => n < 2 ^ 16
  | .write _ a x => a < 2 ^ 28 ∧ x < 2 ^ 32
  | .awrite _ a x => a < 2 ^ 26 ∧ x < 2 ^ 32
  | .poll opsize a x m => opsize ∈ [.plain, .short, .long] ∧ a < 2 ^ 32 ∧ x < 2 ^ 32 ∧ m < 2 ^ 32
  | .loadacwindow n => n < 2 ^ 14
  | .blockcopy b s t n => b < 2 ^ 8 ∧ s < 2 ^ 32 ∧ t < 2 ^ 32 ∧ n < 2 ^ 32

def Command.isPoll : Command → Bool
  | .poll _ _ _ _ => true
  | _ => false

def Command.Kept (c : Command) : Prop := c.isPoll = false ∧ ∀ a x, c ≠ .awrite true a x

def Command.words : Command → List Nat
  | .wait n => [0x80820000 + n]
  | .write byte a x => [(byteSize byte).bytes * 2 ^ 28 + a, x]
  | .awrite byte a x => [0x80000000 + (byteSize byte).bytes * 2 ^ 26 + a, x]
  | .poll _ _ _ _ => []
  | .loadacwindow n => [0x80120000 + n]
  | .blockcopy b s t n => [0x80000000 + b, s, t, n]

def Command.printed : Command → Command
  | .awrite _ a x => .awrite false a x
  | c => c

def Command.text : Command → Text
  | .wait n => command .wait .plain [hex 8 n]
  | .write byte a x => command .write (byteSize byte) [hex 8 a, hex 8 x]
  | .awrite byte a x => command .awrite (byteSize byte) [hex 8 a, hex 8 x]
  | .poll opsize a x m => command .poll opsize [hex 8 a, hex 8 x, hex 8 m]
  | .loadacwindow n => command .loadacwindow .plain [hex 8 n]
  | .blockcopy b s t n => command .blockcopy .plain [hex 2 b, hex 8 s, hex 8 t, hex 8 n]

def Evaluates (eval : Text → Option Nat) : Prop := ∀ t n, intLiteral t = some n → eval t = some n

def Reads (eval : Text → Option Nat) (l : Text) (c : Command) : Prop :=
  parseLine eval l = some (.ok c.parsed)

section Lines

variable {t p : Text} {ps : List Text} {eval : Text → Option Nat}

def Plain (p : Text) : Prop := p ≠ [] ∧ ∀ c ∈ p, c ≠ ',' ∧ isSpace c = false

theorem alphanumPlain {c : Char} (alphanum : c.isAlphanum = true) : c ≠ ',' ∧ isSpace c = false := by
  simp only [Char.isAlphanum, Char.isAlpha, Char.isUpper, Char.isLower, Char.isDigit, Bool.or_eq_true,
    Bool.and_eq_true, decide_eq_true_eq, ge_iff_le, UInt32.le_iff_toNat_le] at alphanum
  constructor
  · rintro rfl
    revert alphanum
    decide
  · unfold isSpace Char.toNat
    simp at alphanum ⊢
    omega

theorem hexPlain (width n : Nat) : Plain (hex width n) := by
  refine ⟨List.cons_ne_nil _ _, fun c mem => ?_⟩
  rcases List.mem_cons.mp mem with rfl | mem
  · decide
  · rcases List.mem_cons.mp mem with rfl | mem
    · decide
    · exact alphanumPlain (paddedAlphanum (by decide) (by decide) mem)

theorem dropSpaces (plain : Plain p) : (p ++ t).dropWhile isSpace = p ++ t := by
  obtain ⟨nonempty, clean⟩ := plain
  cases p with
  | nil => exact absurd rfl nonempty
  | cons c cs =>
    rw [List.cons_append, List.dropWhile_cons_of_neg]
    simp [(clean c List.mem_cons_self).2]

theorem stripPlain (plain : Plain p) : strip p = p ∧ strip (p ++ [' ']) = p := by
  have forward : p.dropWhile isSpace = p := by simpa using dropSpaces (t := []) plain
  have turned : Plain p.reverse :=
    ⟨by simpa using plain.1, fun c mem => plain.2 c (List.mem_reverse.mp mem)⟩
  have backward : p.reverse.dropWhile isSpace = p.reverse := by simpa using dropSpaces (t := []) turned
  have space : isSpace ' ' = true := by decide
  constructor
  · rw [strip, forward, backward, List.reverse_reverse]
  · rw [strip, dropSpaces plain, List.reverse_append, List.reverse_singleton, List.singleton_append,
      List.dropWhile_cons_of_pos space, backward, List.reverse_reverse]

theorem uptoComma (plain : Plain p) :
    (p ++ ',' :: t).takeWhile (· != ',') = p ∧ (p ++ ',' :: t).dropWhile (· != ',') = ',' :: t := by
  have clean : ∀ c ∈ p, (c != ',') = true := fun c mem => by simpa using (plain.2 c mem).1
  constructor
  · rw [List.takeWhile_append_of_pos clean]
    simp
  · rw [List.dropWhile_append_of_pos clean]
    simp

theorem splitNone (n : Nat) : (splitCommas n []).map strip = List.replicate n [] := by
  induction n with
  | zero => rfl
  | succ n ih =>
    rw [List.replicate_succ, ← ih]
    rfl

theorem splitJoined {n : Nat} (plain : ∀ q ∈ p :: ps, Plain q) (few : ps.length ≤ n) :
    (splitCommas (n + 1) (joinCommas (p :: ps) ++ [' '])).map strip =
      p :: ps ++ List.replicate (n - ps.length) [] := by
  have first := plain p List.mem_cons_self
  induction ps generalizing p n with
  | nil =>
    have clean : ∀ c ∈ p ++ [' '], (c != ',') = true := by
      intro c mem
      rcases List.mem_append.mp mem with mem | mem
      · simpa using (first.2 c mem).1
      · rw [List.mem_singleton.mp mem]
        decide
    have all : (p ++ [' ']).takeWhile (· != ',') = p ++ [' '] := List.takeWhile_eq_self_iff.mpr clean
    have rest : (p ++ [' ']).dropWhile (· != ',') = [] := List.dropWhile_eq_nil_iff.mpr clean
    simp only [joinCommas, splitCommas, all, rest, List.map_cons, (stripPlain first).2, List.drop_nil,
      splitNone]
    simp
  | cons q ps ih =>
    cases n with
    | zero => cases few
    | succ n =>
      obtain ⟨taken, left⟩ := uptoComma (t := joinCommas (q :: ps) ++ [' ']) first
      have later : ∀ r ∈ q :: ps, Plain r := fun r mem => plain r (List.mem_cons_of_mem _ mem)
      have shape : joinCommas (p :: q :: ps) ++ [' '] = p ++ ',' :: (joinCommas (q :: ps) ++ [' ']) := by
        simp [joinCommas]
      rw [shape, splitCommas, taken, left, List.map_cons, (stripPlain first).1, List.drop_one,
        List.tail_cons, ih later (by simpa using few) (later q List.mem_cons_self)]
      simp

theorem matchCommand (op : Op) (opsize : OpSize) (plain : ∀ q ∈ p :: ps, Plain q) (few : ps.length ≤ 3) :
    matchLine (command op opsize (p :: ps)) =
      some ⟨op.word, opsize, p :: ps ++ List.replicate (3 - ps.length) []⟩ := by
  have joined : ∃ t, joinCommas (p :: ps) ++ [' '] = p ++ t := by
    cases ps with
    | nil => exact ⟨[' '], rfl⟩
    | cons q ps => exact ⟨',' :: joinCommas (q :: ps) ++ [' '], by simp [joinCommas]⟩
  have clean : (joinCommas (p :: ps) ++ [' ']).dropWhile isSpace = joinCommas (p :: ps) ++ [' '] := by
    obtain ⟨t, shape⟩ := joined
    rw [shape]
    exact dropSpaces (plain p List.mem_cons_self)
  have split := splitJoined plain few
  have space : isSpace ' ' = true := by decide
  have line : command op opsize (p :: ps) ++ [' '] =
      op.word ++ (opsize.suffix ++ ' ' :: (joinCommas (p :: ps) ++ [' '])) := by
    simp [command, List.append_assoc]
  have whole : (op.word ++ (opsize.suffix ++ ' ' :: (joinCommas (p :: ps) ++ [' ']))).dropWhile isSpace =
      op.word ++ (opsize.suffix ++ ' ' :: (joinCommas (p :: ps) ++ [' '])) := by
    cases op <;> rfl
  have taken : (op.word ++ (opsize.suffix ++ ' ' :: (joinCommas (p :: ps) ++ [' ']))).takeWhile
      Char.isLower = op.word := by
    cases op <;> cases opsize <;> rfl
  have left : (op.word ++ (opsize.suffix ++ ' ' :: (joinCommas (p :: ps) ++ [' ']))).dropWhile
      Char.isLower = opsize.suffix ++ ' ' :: (joinCommas (p :: ps) ++ [' ']) := by
    cases op <;> cases opsize <;> rfl
  have suffix : OpSize.all.find? (OpSize.matches
      (opsize.suffix ++ ' ' :: (joinCommas (p :: ps) ++ [' ']))) = some opsize := by
    cases opsize <;> rfl
  have named : op.word ≠ [] := by cases op <;> exact List.cons_ne_nil _ _
  simp only [matchLine, line, whole, taken, left, suffix, if_neg named, List.drop_left,
    List.dropWhile_cons_of_pos space, clean, split]

theorem operandHex (evaluates : Evaluates eval) (qs : List (Nat × Nat)) (k i : Nat) :
    operand eval (qs.map (fun q => hex q.1 q.2) ++ List.replicate k []) i =
      some (qs[i]?.map Prod.snd) := by
  unfold operand
  rcases Nat.lt_or_ge i qs.length with inside | beyond
  · rw [List.getElem?_append_left (by simpa using inside), List.getElem?_map]
    rw [List.getElem?_eq_getElem inside]
    exact congrArg (Option.map some) (evaluates _ _ (intLiteralHex _))
  · rw [List.getElem?_append_right (by simpa using beyond), List.getElem?_eq_none beyond,
      List.getElem?_replicate]
    split
    · rfl
    · rename_i none_
      split at none_
      · cases none_
        rfl
      · cases none_
    · rename_i some_
      split at some_
      · cases some_
      · cases some_

theorem parseCommand (evaluates : Evaluates eval) (op : Op) (opsize : OpSize) (q : Nat × Nat)
    (qs : List (Nat × Nat)) (few : qs.length ≤ 3) :
    parseLine eval (command op opsize ((q :: qs).map fun q => hex q.1 q.2)) =
      some (.ok ⟨op, opsize, some q.2, qs[0]?.map Prod.snd, qs[1]?.map Prod.snd,
        qs[2]?.map Prod.snd⟩) := by
  have plain : ∀ r ∈ (q :: qs).map (fun q => hex q.1 q.2), Plain r := by
    intro r mem
    obtain ⟨q, _, rfl⟩ := List.mem_map.mp mem
    exact hexPlain _ _
  have found : Op.all.find? (fun o => o.word = op.word) = some op := by cases op <;> rfl
  have matched := matchCommand op opsize plain (by simpa using few)
  rw [List.length_map] at matched
  have operands := operandHex evaluates (q :: qs) (3 - qs.length)
  simp only [List.map_cons] at matched operands ⊢
  simp only [parseLine, matched, operands, found]
  rfl

theorem readsText (evaluates : Evaluates eval) (c : Command) : Reads eval c.text c := by
  cases c with
  | wait n => exact parseCommand evaluates _ _ (8, n) [] (by simp)
  | write byte a x => exact parseCommand evaluates _ _ (8, a) [(8, x)] (by simp)
  | awrite byte a x => exact parseCommand evaluates _ _ (8, a) [(8, x)] (by simp)
  | poll opsize a x m => exact parseCommand evaluates _ _ (8, a) [(8, x), (8, m)] (by simp)
  | loadacwindow n => exact parseCommand evaluates _ _ (8, n) [] (by simp)
  | blockcopy b s t n => exact parseCommand evaluates _ _ (2, b) [(8, s), (8, t), (8, n)] (by simp)

end Lines

section Words

variable {v : Vars} {c : Command} {rest : List Nat}

theorem fieldAt (x k n : Nat) : (x &&& (2 ^ n - 1) * 2 ^ k) >>> k = x / 2 ^ k % 2 ^ n := by
  rw [Nat.shiftRight_and_distrib, Nat.shiftRight_eq_div_pow, Nat.shiftRight_eq_div_pow,
    Nat.mul_div_cancel _ (Nat.two_pow_pos k), Nat.and_two_pow_sub_one_eq_mod]

theorem maskAt (x k n : Nat) : x &&& (2 ^ n - 1) * 2 ^ k = x / 2 ^ k % 2 ^ n * 2 ^ k := by
  rw [← Nat.and_two_pow_sub_one_eq_mod, ← Nat.shiftRight_eq_div_pow, ← Nat.shiftLeft_eq, ← Nat.shiftLeft_eq]
  apply Nat.eq_of_testBit_eq
  intro i
  simp only [Nat.testBit_and, Nat.testBit_shiftLeft, Nat.testBit_shiftRight]
  by_cases low : k ≤ i
  · simp [low, Nat.add_sub_cancel' low]
  · simp [low]

theorem lowOf (x n : Nat) : x &&& (2 ^ n - 1) = x % 2 ^ n := Nat.and_two_pow_sub_one_eq_mod x n

theorem headerOf (word : Nat) : (word &&& 0xff000000) >>> 24 = word / 2 ^ 24 % 2 ^ 8 := fieldAt word 24 8

theorem commandOf (word : Nat) : (word &&& 0x00ff0000) >>> 16 = word / 2 ^ 16 % 2 ^ 8 := fieldAt word 16 8

theorem disassembleWait {n : Nat} (small : n < 2 ^ 16) :
    disassembleWord (0x80820000 + n) rest = some (command .wait .plain [hex 8 n], rest) := by
  have header : ((0x80820000 + n) &&& 0xff000000) >>> 24 = 0x80 := by
    rw [headerOf]
    omega
  have cmd : ((0x80820000 + n) &&& 0x00ff0000) >>> 16 = 0x82 := by
    rw [commandOf]
    omega
  have arg : (0x80820000 + n) &&& 0xffff = n := by
    rw [show 0xffff = 2 ^ 16 - 1 from rfl, lowOf]
    omega
  simp only [disassembleWord, header, if_true, disassembleCommand, cmd, arg]
  rfl

theorem disassembleLoad {n : Nat} (small : n < 2 ^ 14) :
    disassembleWord (0x80120000 + n) rest = some (command .loadacwindow .plain [hex 8 n], rest) := by
  have header : ((0x80120000 + n) &&& 0xff000000) >>> 24 = 0x80 := by
    rw [headerOf]
    omega
  have cmd : ((0x80120000 + n) &&& 0x00ff0000) >>> 16 = 0x12 := by
    rw [commandOf]
    omega
  have arg : (0x80120000 + n) &&& 0x3fff = n := by
    rw [show 0x3fff = 2 ^ 14 - 1 from rfl, lowOf]
    omega
  simp only [disassembleWord, header, if_true, disassembleCommand, cmd, arg]
  rfl

theorem disassembleCopy {b s t n : Nat} (small : b < 2 ^ 8) :
    disassembleWord (0x80000000 + b) (s :: t :: n :: rest) =
      some (command .blockcopy .plain [hex 2 b, hex 8 s, hex 8 t, hex 8 n], rest) := by
  have header : ((0x80000000 + b) &&& 0xff000000) >>> 24 = 0x80 := by
    rw [headerOf]
    omega
  have cmd : ((0x80000000 + b) &&& 0x00ff0000) >>> 16 = 0x00 := by
    rw [commandOf]
    omega
  have arg : (0x80000000 + b) &&& 0xff = b := by
    rw [show 0xff = 2 ^ 8 - 1 from rfl, lowOf]
    omega
  have three : arguments 3 (s :: t :: n :: rest) = some ([s, t, n], rest) := by simp [arguments]
  simp only [disassembleWord, header, if_true, disassembleCommand, cmd, arg, three]
  rfl

theorem oneArgument (x : Nat) : arguments 1 (x :: rest) = some ([x], rest) := by simp [arguments]

theorem disassembleWrite (byte : Bool) {a x : Nat} (small : a < 2 ^ 28) :
    disassembleWord ((byteSize byte).bytes * 2 ^ 28 + a) (x :: rest) =
      some (command .write (byteSize byte) [hex 8 a, hex 8 x], rest) := by
  generalize size : (byteSize byte).bytes = k
  have kinds : k = 1 ∨ k = 3 := by
    rw [← size]
    cases byte
    · exact .inr rfl
    · exact .inl rfl
  have header : ((k * 2 ^ 28 + a) &&& 0xff000000) >>> 24 = k * 16 + a / 2 ^ 24 := by
    rw [headerOf]
    omega
  have arg : (k * 2 ^ 28 + a) &&& 0x0fffffff = a := by
    rw [show 0x0fffffff = 2 ^ 28 - 1 from rfl, lowOf]
    omega
  have kind : (k * 16 + a / 2 ^ 24) &&& 0xc0 = 0x00 := by
    rw [show (k * 16 + a / 2 ^ 24) &&& 0xc0 = _ from maskAt _ 6 2]
    omega
  have cmd : ((k * 16 + a / 2 ^ 24) &&& 0x30) >>> 4 = k := by
    rw [show ((k * 16 + a / 2 ^ 24) &&& 0x30) >>> 4 = _ from fieldAt _ 4 2]
    omega
  have other : k * 16 + a / 2 ^ 24 ≠ 0x80 := by
    omega
  simp only [disassembleWord, header, if_neg other, kind, if_true, cmd, arg, oneArgument]
  cases byte with
  | false =>
    rw [← size]
    rfl
  | true =>
    rw [← size]
    rfl

theorem disassembleAwrite (byte : Bool) {a x : Nat} (small : a < 2 ^ 26) :
    disassembleWord (0x80000000 + (byteSize byte).bytes * 2 ^ 26 + a) (x :: rest) =
      some (command .awrite .plain [hex 8 a, hex 8 x], rest) := by
  generalize size : (byteSize byte).bytes = k
  have kinds : k = 1 ∨ k = 3 := by
    rw [← size]
    cases byte
    · exact .inr rfl
    · exact .inl rfl
  have header : ((0x80000000 + k * 2 ^ 26 + a) &&& 0xff000000) >>> 24 = 0x80 + k * 4 + a / 2 ^ 24 := by
    rw [headerOf]
    omega
  have arg : (0x80000000 + k * 2 ^ 26 + a) &&& 0x03ffffff = a := by
    rw [show 0x03ffffff = 2 ^ 26 - 1 from rfl, lowOf]
    omega
  have kind : (0x80 + k * 4 + a / 2 ^ 24) &&& 0xc0 = 0x80 := by
    rw [show (0x80 + k * 4 + a / 2 ^ 24) &&& 0xc0 = _ from maskAt _ 6 2]
    omega
  have cmd : ((0x80 + k * 4 + a / 2 ^ 24) &&& 0x3c) >>> 2 = k := by
    rw [show ((0x80 + k * 4 + a / 2 ^ 24) &&& 0x3c) >>> 2 = _ from fieldAt _ 2 4]
    omega
  have other : 0x80 + k * 4 + a / 2 ^ 24 ≠ 0x80 := by
    omega
  have one : arguments (((1 <<< (k - 1)) + 3) / 4) (x :: rest) = some ([x], rest) := by
    rcases kinds with rfl | rfl
    · exact oneArgument x
    · exact oneArgument x
  have nonzero : k ≠ 0 := by
    omega
  simp only [disassembleWord, header, if_neg other, kind, cmd, arg, one]
  simp [nonzero]

theorem disassembleOne (rest : List Nat) (inRange : c.InRange) (assembled : c.isPoll = false) :
    ∃ word args, c.words = word :: args ∧
      disassembleWord word (args ++ rest) = some (c.printed.text, rest) := by
  cases c with
  | wait n => exact ⟨_, _, rfl, disassembleWait inRange⟩
  | write byte a x => exact ⟨_, _, rfl, disassembleWrite byte inRange.1⟩
  | awrite byte a x => exact ⟨_, _, rfl, disassembleAwrite byte inRange.1⟩
  | poll opsize a x m => cases assembled
  | loadacwindow n => exact ⟨_, _, rfl, disassembleLoad inRange⟩
  | blockcopy b s t n => exact ⟨_, _, rfl, disassembleCopy inRange.1⟩

theorem wordsSmall (inRange : c.InRange) : ∀ x ∈ c.words, x < 2 ^ 32 := by
  cases c with
  | wait n =>
    simp only [Command.InRange] at inRange
    simp only [Command.words, List.forall_mem_singleton]
    omega
  | write byte a x =>
    obtain ⟨address, value⟩ := inRange
    cases byte <;> simp [Command.words, byteSize, OpSize.bytes] <;> omega
  | awrite byte a x =>
    obtain ⟨address, value⟩ := inRange
    cases byte <;> simp [Command.words, byteSize, OpSize.bytes] <;> omega
  | poll opsize a x m => intro x mem; cases mem
  | loadacwindow n =>
    simp only [Command.InRange] at inRange
    simp only [Command.words, List.forall_mem_singleton]
    omega
  | blockcopy b s t n =>
    obtain ⟨block, source, target, size⟩ := inRange
    simp [Command.words]
    omega

def packAll (little : Bool) (xs : List Nat) : List Nat := xs.flatMap (pack little 4)

theorem packWordsAll {little : Bool} {xs : List Nat} (small : ∀ x ∈ xs, x < 2 ^ 32) :
    packWords little xs = some (packAll little xs) := by
  induction xs with
  | nil => rfl
  | cons x xs ih =>
    rw [packWords, packL, if_pos (small x List.mem_cons_self),
      ih (fun y mem => small y (List.mem_cons_of_mem _ mem))]
    rfl

theorem orAdds {k a : Nat} (n : Nat) (small : a < 2 ^ n) : (k * 2 ^ n) ||| a = k * 2 ^ n + a := by
  rw [← Nat.shiftLeft_eq, Nat.shiftLeft_add_eq_or_of_lt small]

theorem assembleWords (format : v.pbiformat = 2) (inRange : c.InRange) (assembled : c.isPoll = false) :
    v.assemble c.parsed = some (.ok (packAll v.littleendian c.words)) := by
  have packed : packWords v.littleendian c.words = _ := packWordsAll (wordsSmall inRange)
  cases c with
  | wait n =>
    have sum : 0x80820000 ||| n = 0x80820000 + n := orAdds (k := 0x8082) 16 inRange
    simp only [Vars.assemble, Command.parsed, if_pos format, sum]
    exact congrArg (Option.map Except.ok) packed
  | write byte a x =>
    have sum := orAdds (k := (byteSize byte).bytes) 28 inRange.1
    rw [← Nat.shiftLeft_eq] at sum
    simp only [Vars.assemble, Command.parsed, if_pos format, sum]
    simp only [Nat.shiftLeft_eq]
    exact congrArg (Option.map Except.ok) packed
  | awrite byte a x =>
    simp only [Vars.assemble, Command.parsed, if_pos format, Nat.shiftLeft_eq]
    exact congrArg (Option.map Except.ok) packed
  | poll opsize a x m => cases assembled
  | loadacwindow n =>
    simp only [Vars.assemble, Command.parsed, format, ne_eq, not_true_eq_false, if_false]
    exact congrArg (Option.map Except.ok) packed
  | blockcopy b s t n =>
    have low : b &&& 0xff = b := by
      rw [show 0xff = 2 ^ 8 - 1 from rfl, lowOf, Nat.mod_eq_of_lt inRange.1]
    simp only [Vars.assemble, Command.parsed, format, ne_eq, not_true_eq_false, if_false, low]
    exact congrArg (Option.map Except.ok) packed

theorem packWordsLarge {little : Bool} {x : Nat} (xs : List Nat) (large : 2 ^ 32 ≤ x) :
    packWords little (x :: xs) = none := by
  rw [packWords, packL, if_neg (Nat.not_lt.mpr large)]
  rfl

theorem assemblePoll (format : v.pbiformat = 2) (poll : c.isPoll = true) : v.assemble c.parsed = none := by
  cases c with
  | poll opsize a x m =>
    have large : ∀ cmd, 0x80 ≤ cmd →
        packWords v.littleendian [0x80000000 + (cmd <<< 24) + a, x, m] = none := by
      intro cmd least
      apply packWordsLarge
      rw [Nat.shiftLeft_eq]
      omega
    have shape : v.assemble (Command.poll opsize a x m).parsed =
        (packWords v.littleendian
          [0x80000000 + ((if opsize = .long then 0x81 else 0x80) <<< 24) + a, x, m]).map Except.ok := by
      unfold Vars.assemble
      exact if_neg (not_not.mpr format)
    rw [shape, large _ (by split <;> decide)]
    rfl
  | wait n => cases poll
  | write byte a x => cases poll
  | awrite byte a x => cases poll
  | loadacwindow n => cases poll
  | blockcopy b s t n => cases poll

theorem wordsPacked {little : Bool} {xs : List Nat} (small : ∀ x ∈ xs, x < 2 ^ 32) :
    words little (packAll little xs ++ [0, 0, 0]) = xs := by
  induction xs with
  | nil => rfl
  | cons x xs ih =>
    have back : unpack little (pack little 4 x) = x := unpackPack little 4 (small x List.mem_cons_self)
    have length := packLength little 4 x
    have later := ih (fun y mem => small y (List.mem_cons_of_mem _ mem))
    rw [packAll, List.flatMap_cons, ← packAll, List.append_assoc]
    match pack little 4 x, length, back with
    | [a, b, c, d], _, back =>
      simp only [List.cons_append, List.nil_append, words, back, later]

end Words

section Sections

variable {v : Vars} {eval : Text → Option Nat} {c : Command} {cs : List Command} {lines : List Text}

theorem buildReads {l : Text} (reads : Reads eval l c) : v.buildLine eval l = v.assemble c.parsed := by
  have parsed : parseLine eval l = some (.ok c.parsed) := reads
  simp only [Vars.buildLine, parsed]

theorem buildAll (format : v.pbiformat = 2) (reads : List.Forall₂ (Reads eval) lines cs)
    (inRange : ∀ c ∈ cs, c.InRange) (assembled : ∀ c ∈ cs, c.isPoll = false) (subsection : List Nat) :
    v.buildPbi eval subsection lines =
      some (.ok (subsection ++ packAll v.littleendian (cs.flatMap Command.words))) := by
  induction reads generalizing subsection with
  | nil => simp [Vars.buildPbi, packAll]
  | cons first reads ih =>
    rename_i l c ls cs
    have line := buildReads (v := v) first
    rw [assembleWords format (inRange c List.mem_cons_self) (assembled c List.mem_cons_self)] at line
    simp only [Vars.buildPbi, line]
    rw [ih (fun c mem => inRange c (List.mem_cons_of_mem _ mem))
      (fun c mem => assembled c (List.mem_cons_of_mem _ mem))]
    simp [packAll]

theorem buildPoll (format : v.pbiformat = 2) (reads : List.Forall₂ (Reads eval) lines cs)
    (inRange : ∀ c ∈ cs, c.InRange) (mem : c ∈ cs) (poll : c.isPoll = true)
    (subsection : List Nat) : v.buildPbi eval subsection lines = none := by
  induction reads generalizing subsection with
  | nil => cases mem
  | cons first reads ih =>
    rename_i l d ls cs
    have line := buildReads (v := v) first
    cases kind : d.isPoll with
    | true =>
      rw [assemblePoll format kind] at line
      simp only [Vars.buildPbi, line]
    | false =>
      rw [assembleWords format (inRange d List.mem_cons_self) kind] at line
      simp only [Vars.buildPbi, line]
      refine ih (fun c mem => inRange c (List.mem_cons_of_mem _ mem)) ?_ _
      rcases List.mem_cons.mp mem with rfl | later
      · rw [kind] at poll
        cases poll
      · exact later

theorem disassembleAll (inRange : ∀ c ∈ cs, c.InRange) (assembled : ∀ c ∈ cs, c.isPoll = false)
    {fuel : Nat} (enough : (cs.flatMap Command.words).length ≤ fuel) :
    disassembleWords fuel (cs.flatMap Command.words) = some (cs.map fun c => c.printed.text) := by
  induction cs generalizing fuel with
  | nil => cases fuel <;> rfl
  | cons c cs ih =>
    obtain ⟨word, args, shape, line⟩ := disassembleOne (cs.flatMap Command.words)
      (inRange c List.mem_cons_self) (assembled c List.mem_cons_self)
    rw [List.flatMap_cons, shape] at enough ⊢
    cases fuel with
    | zero => simp at enough
    | succ fuel =>
      have fewer : (cs.flatMap Command.words).length ≤ fuel := by
        rw [List.length_append, List.length_cons] at enough
        omega
      have later := ih (fun c mem => inRange c (List.mem_cons_of_mem _ mem))
        (fun c mem => assembled c (List.mem_cons_of_mem _ mem)) fewer
      simp only [List.cons_append, disassembleWords, line, Option.bind_eq_bind, Option.bind_some, later,
        List.map_cons]

theorem printedKind (c : Command) : c.printed.isPoll = c.isPoll ∧ (c.InRange → c.printed.InRange) := by
  cases c <;> exact ⟨rfl, id⟩

theorem printedKept (kept : c.Kept) : c.printed = c := by
  cases c with
  | awrite byte a x =>
    cases byte with
    | false => rfl
    | true => exact absurd rfl (kept.2 a x)
  | wait n => rfl
  | write byte a x => rfl
  | poll opsize a x m => rfl
  | loadacwindow n => rfl
  | blockcopy b s t n => rfl

theorem printedWords (same : c.words = c.printed.words) (a x : Nat) : c ≠ .awrite true a x := by
  rintro rfl
  have first := (List.cons.inj same).1
  simp only [byteSize, OpSize.bytes] at first
  revert first
  simp

theorem printedReads (evaluates : Evaluates eval) (cs : List Command) :
    List.Forall₂ (Reads eval) (cs.map fun c => c.printed.text) (cs.map Command.printed) := by
  induction cs with
  | nil => exact .nil
  | cons c cs ih => exact .cons (readsText evaluates c.printed) ih

theorem wordsEach (same : cs.flatMap Command.words = (cs.map Command.printed).flatMap Command.words) :
    ∀ c ∈ cs, c.words = c.printed.words := by
  induction cs with
  | nil => exact fun c mem => by cases mem
  | cons d cs ih =>
    have length : d.words.length = d.printed.words.length := by
      cases d <;> simp only [Command.printed, Command.words, List.length_cons, List.length_nil]
    rw [List.map_cons, List.flatMap_cons, List.flatMap_cons] at same
    obtain ⟨first, later⟩ := List.append_inj same length
    intro c mem
    rcases List.mem_cons.mp mem with rfl | mem
    · exact first
    · exact ih later c mem

theorem flatSmall (inRange : ∀ c ∈ cs, c.InRange) : ∀ x ∈ cs.flatMap Command.words, x < 2 ^ 32 := by
  intro x mem
  obtain ⟨c, member, word⟩ := List.mem_flatMap.mp mem
  exact wordsSmall (inRange c member) x word

def RoundTrips (v : Vars) (eval : Text → Option Nat) (lines : List Text) : Prop :=
  ∃ bytes printed, v.buildPbi eval [] lines = some (.ok bytes) ∧
    disassemble v.littleendian bytes = some printed ∧ v.buildPbi eval [] printed = some (.ok bytes)

theorem printedInRange (inRange : ∀ c ∈ cs, c.InRange) : ∀ c ∈ cs.map Command.printed, c.InRange := by
  intro c mem
  obtain ⟨d, member, rfl⟩ := List.mem_map.mp mem
  exact (printedKind d).2 (inRange d member)

theorem printedSection (format : v.pbiformat = 2) (evaluates : Evaluates eval)
    (inRange : ∀ c ∈ cs, c.InRange) (assembled : ∀ c ∈ cs, c.isPoll = false) :
    disassemble v.littleendian (packAll v.littleendian (cs.flatMap Command.words)) =
        some (cs.map fun c => c.printed.text) ∧
      v.buildPbi eval [] (cs.map fun c => c.printed.text) =
        some (.ok (packAll v.littleendian ((cs.map Command.printed).flatMap Command.words))) := by
  constructor
  · rw [disassemble, wordsPacked (flatSmall inRange)]
    exact disassembleAll inRange assembled le_rfl
  · refine buildAll format (printedReads evaluates cs) (printedInRange inRange) ?_ []
    · intro c mem
      obtain ⟨d, member, rfl⟩ := List.mem_map.mp mem
      exact (printedKind d).1.trans (assembled d member)

theorem roundTripsKept (format : v.pbiformat = 2) (evaluates : Evaluates eval)
    (reads : List.Forall₂ (Reads eval) lines cs) (inRange : ∀ c ∈ cs, c.InRange)
    (trips : RoundTrips v eval lines) : ∀ c ∈ cs, c.Kept := by
  obtain ⟨bytes, printed, built, shown, again⟩ := trips
  have assembled : ∀ c ∈ cs, c.isPoll = false := by
    intro c mem
    by_contra poll
    rw [buildPoll format reads inRange mem (by simpa using poll)] at built
    cases built
  obtain ⟨lines_, rebuilt⟩ := printedSection format evaluates inRange assembled
  rw [buildAll format reads inRange assembled, List.nil_append] at built
  cases built
  rw [lines_] at shown
  cases shown
  rw [rebuilt] at again
  have bytes : packAll v.littleendian ((cs.map Command.printed).flatMap Command.words) =
      packAll v.littleendian (cs.flatMap Command.words) := Except.ok.inj (Option.some.inj again)
  have same := congrArg (fun b => words v.littleendian (b ++ [0, 0, 0])) bytes
  simp only [wordsPacked (flatSmall inRange), wordsPacked (flatSmall (printedInRange inRange))] at same
  intro c mem
  exact ⟨assembled c mem, printedWords (wordsEach same.symm c mem)⟩

theorem keptRoundTrips (format : v.pbiformat = 2) (evaluates : Evaluates eval)
    (reads : List.Forall₂ (Reads eval) lines cs) (inRange : ∀ c ∈ cs, c.InRange)
    (kept : ∀ c ∈ cs, c.Kept) : RoundTrips v eval lines := by
  have assembled : ∀ c ∈ cs, c.isPoll = false := fun c mem => (kept c mem).1
  obtain ⟨lines_, rebuilt⟩ := printedSection format evaluates inRange assembled
  refine ⟨_, _, buildAll format reads inRange assembled [], lines_, ?_⟩
  rw [rebuilt, List.map_congr_left (fun c mem => printedKept (kept c mem)), List.map_id', List.nil_append]

theorem pbiRoundTrips (format : v.pbiformat = 2) (evaluates : Evaluates eval)
    (reads : List.Forall₂ (Reads eval) lines cs) (inRange : ∀ c ∈ cs, c.InRange) :
    RoundTrips v eval lines ↔ ∀ c ∈ cs, c.Kept :=
  ⟨roundTripsKept format evaluates reads inRange, keptRoundTrips format evaluates reads inRange⟩

end Sections

def ls2 : Vars := ⟨1024, 2, false, true, false, false, 0, 0, 0x138000⟩

theorem literalsEvaluate : Evaluates intLiteral := fun _ _ => id

theorem pbiRoundTripsWrite :
    RoundTrips ls2 intLiteral [(Command.wait 7).text, (Command.write true 0x570158 1).text] := by
  have reads : List.Forall₂ (Reads intLiteral) [(Command.wait 7).text, (Command.write true 0x570158 1).text]
      [.wait 7, .write true 0x570158 1] :=
    .cons (readsText literalsEvaluate _) (.cons (readsText literalsEvaluate _) .nil)
  refine (pbiRoundTrips rfl literalsEvaluate reads ?_).mpr ?_
  · simp [Command.InRange]
  · simp [Command.Kept, Command.isPoll]

theorem byteWriteAndPollLost :
    ¬ RoundTrips ls2 intLiteral [(Command.awrite true 0x100 5).text] ∧
      ls2.buildPbi intLiteral [] [(Command.poll .long 0x100 1 1).text] = none := by
  constructor
  · intro trips
    have reads : List.Forall₂ (Reads intLiteral) _ [.awrite true 0x100 5] :=
      .cons (readsText literalsEvaluate _) .nil
    have kept := roundTripsKept rfl literalsEvaluate reads (by simp [Command.InRange]) trips
    exact (kept _ List.mem_cons_self).2 _ _ rfl
  · have reads : List.Forall₂ (Reads intLiteral) _ [.poll .long 0x100 1 1] :=
      .cons (readsText literalsEvaluate _) .nil
    exact buildPoll rfl reads (by simp [Command.InRange]) List.mem_cons_self rfl []

end Flexbuild.Rcw
