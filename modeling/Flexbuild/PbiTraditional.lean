import Flexbuild.RcwCrc

/-! The PBI section of the traditional format. Every command is two words, the first with the
number of bytes that follow; a wait, a flush and the end command are writes into the window of the
PBL's own registers, and only the window tells them from a write. -/
namespace Flexbuild.Rcw
open Numerals BitStrings

inductive OldCommand where
  | wait (cycles : Nat)
  | write (address value : Nat)
  | awrite (address value : Nat)
  | flush
  deriving DecidableEq, Repr

def Vars.window (v : Vars) : Nat := v.pbladdr &&& 0x00ffff00

def OldCommand.parsed : OldCommand → Parsed
  | .wait n => ⟨.wait, .plain, some n, none, none, none⟩
  | .write a x => ⟨.write, .plain, some a, some x, none, none⟩
  | .awrite a x => ⟨.awrite, .plain, some a, some x, none, none⟩
  | .flush => ⟨.flush, .plain, none, none, none, none⟩

def Vars.Outside (v : Vars) (a x : Nat) : Prop := a < 2 ^ 24 ∧ a &&& 0x00ffff00 ≠ v.window ∧ x < 2 ^ 32

def OldCommand.InRange (v : Vars) : OldCommand → Prop
  | .wait n => n < 2 ^ 32
  | .write a x => v.Outside a x
  | .awrite a x => v.Outside a x
  | .flush => True

def OldCommand.words (v : Vars) : OldCommand → List Nat
  | .wait n => [0x09 * 2 ^ 24 + (v.window + 0xc0), n]
  | .write a x => [0x09 * 2 ^ 24 + a, x]
  | .awrite a x => [0x89 * 2 ^ 24 + a, x]
  | .flush => [0x09 * 2 ^ 24 + v.window, 0]

def OldCommand.text : OldCommand → Text
  | .wait n => command .wait .plain [decimal n]
  | .write a x => command .write .plain [hex 8 a, hex 8 x]
  | .awrite a x => command .awrite .plain [hex 8 a, hex 8 x]
  | .flush => Op.flush.word

def crcStop (crc : Nat) : Text := remark "/* CRC and Stop command (CRC " crc ")*/"

def listedCommands (eval : Text → Option Nat) (source : List Text) : List Parsed :=
  source.filterMap fun l =>
    match parseLine eval l with
    | some (.ok c) => some c
    | _ => none

section Lines

variable {eval : Text → Option Nat}

theorem decimalPlain (n : Nat) : Plain (decimal n) :=
  ⟨Nat.toDigits_ne_nil, fun _ mem => alphanumPlain (digitsAlphanum (by decide) (by decide) mem)⟩

theorem decimalLiteral (n : Nat) : intLiteral (decimal n) = some n := by
  rcases Nat.eq_zero_or_pos n with rfl | positive
  · decide
  · exact intLiteralDecimal positive

theorem parseWait (evaluates : Evaluates eval) (n : Nat) :
    parseLine eval (command .wait .plain [decimal n]) = some (.ok (OldCommand.wait n).parsed) := by
  have plain : ∀ p ∈ [decimal n], Plain p := fun p mem => by
    rw [List.mem_singleton.mp mem]
    exact decimalPlain n
  have matched := matchCommand .wait .plain plain (by simp)
  have first : operand eval [decimal n, [], [], []] 0 = some (some n) := by
    have value := evaluates _ _ (decimalLiteral n)
    unfold operand
    cases digits : decimal n with
    | nil => exact absurd digits Nat.toDigits_ne_nil
    | cons c cs =>
      rw [digits] at value
      simp [value]
  unfold parseLine
  rw [matched]
  simp only [List.length_nil, Nat.sub_zero, List.replicate, List.cons_append, List.nil_append, first]
  rfl

theorem parseText (evaluates : Evaluates eval) (c : OldCommand) : parseLine eval c.text = some (.ok c.parsed) := by
  cases c with
  | wait n => exact parseWait evaluates n
  | write a x => exact parseCommand evaluates _ _ (8, a) [(8, x)] (by simp)
  | awrite a x => exact parseCommand evaluates _ _ (8, a) [(8, x)] (by simp)
  | flush => rfl

theorem parseRemark (crc : Nat) : parseLine eval (crcStop crc) = some (.error (unknownCommand (crcStop crc))) := rfl

theorem listedTexts (evaluates : Evaluates eval) (cs : List OldCommand) :
    listedCommands eval (cs.map OldCommand.text) = cs.map OldCommand.parsed := by
  induction cs with
  | nil => rfl
  | cons c cs rest =>
    unfold listedCommands at rest ⊢
    rw [List.map_cons, List.filterMap_cons, parseText evaluates c, rest]
    rfl

theorem listedSection (evaluates : Evaluates eval) (cs : List OldCommand) (remarks : List Nat) :
    listedCommands eval ([[], ".pbi".toList] ++ (cs.map OldCommand.text ++ remarks.map crcStop) ++ [".end".toList]) =
      cs.map OldCommand.parsed := by
  have texts := listedTexts evaluates cs
  have comments : (remarks.map crcStop).filterMap (fun l =>
      match parseLine eval l with
      | some (.ok c) => some c
      | _ => none) = [] := by
    rw [List.filterMap_eq_nil_iff]
    intro l mem
    obtain ⟨crc, _, rfl⟩ := List.mem_map.mp mem
    rw [parseRemark]
  unfold listedCommands at texts ⊢
  rw [List.filterMap_append, List.filterMap_append, List.filterMap_append, texts, comments, List.append_nil]
  have head : List.filterMap (fun l =>
      match parseLine eval l with
      | some (.ok c) => some c
      | _ => none) [[], ".pbi".toList] = [] := rfl
  have last : List.filterMap (fun l =>
      match parseLine eval l with
      | some (.ok c) => some c
      | _ => none) [".end".toList] = [] := rfl
  rw [head, last, List.append_nil, List.nil_append]

end Lines

section Words

variable {v : Vars} {c : OldCommand} {rest : List Nat}

theorem windowForm (v : Vars) : ∃ m, m < 2 ^ 16 ∧ v.window = m * 2 ^ 8 :=
  ⟨v.pbladdr / 2 ^ 8 % 2 ^ 16, Nat.mod_lt _ (by decide), maskAt v.pbladdr 8 16⟩

theorem registerWord (h : Nat) {e m : Nat} (offset : e < 2 ^ 8) (small : m < 2 ^ 16) :
    (h * 2 ^ 24 + e) ||| (m * 2 ^ 8) = h * 2 ^ 24 + (m * 2 ^ 8 + e) := by
  have inner : e ||| (m * 2 ^ 8) = m * 2 ^ 8 + e := by rw [Nat.or_comm, orAdds 8 offset]
  rw [← orAdds 24 (show e < 2 ^ 24 by omega), Nat.or_assoc, inner, orAdds 24 (by omega)]

theorem windowWord (h : Nat) {e : Nat} (offset : e < 2 ^ 8) :
    (h * 2 ^ 24 + e) ||| v.window = h * 2 ^ 24 + (v.window + e) := by
  obtain ⟨m, small, window⟩ := windowForm v
  rw [window, registerWord h offset small]

theorem oldHeader {h a : Nat} (byte : h < 2 ^ 8) (small : a < 2 ^ 24) :
    ((h * 2 ^ 24 + a) &&& 0xff000000) >>> 24 = h ∧ (h * 2 ^ 24 + a) &&& 0x00ffffff = a := by
  constructor
  · rw [headerOf]
    omega
  · rw [show 0x00ffffff = 2 ^ 24 - 1 from rfl, lowOf]
    omega

theorem registerAt {e : Nat} (offset : e < 2 ^ 8) :
    v.window + e < 2 ^ 24 ∧ (v.window + e) &&& 0x00ffff00 = v.window ∧ (v.window + e) &&& 0xff = e := by
  obtain ⟨m, small, window⟩ := windowForm v
  rw [window]
  refine ⟨by omega, ?_, ?_⟩
  · rw [show (m * 2 ^ 8 + e) &&& 0x00ffff00 = _ from maskAt _ 8 16]
    omega
  · rw [show 0xff = 2 ^ 8 - 1 from rfl, lowOf]
    omega

theorem disassembleRegister (quads : v.littleendian64b = false) {e x : Nat} (offset : e < 2 ^ 8) :
    disassembleOldWord v (0x09 * 2 ^ 24 + (v.window + e)) (x :: rest) =
      some (if e = 0x00 then Op.flush.word
        else if e = 0x40 then remark "/* CRC command (CRC " x ")*/"
        else if e = 0x80 then "jump ".toList ++ hex 8 x
        else if e = 0xc0 then Op.wait.word ++ ' ' :: decimal x
        else [], rest) := by
  obtain ⟨small, inside, low⟩ := registerAt (v := v) offset
  obtain ⟨header, address⟩ := oldHeader (h := 0x09) (by decide) small
  have window : v.pbladdr &&& 0x00ffff00 = v.window := rfl
  unfold disassembleOldWord
  rw [header, address, window]
  simp only [quads, Bool.false_eq_true, false_and, if_false, inside, low, oneArgument]
  rfl

theorem disassembleOutside (quads : v.littleendian64b = false) {h a x : Nat} (kind : h = 0x09 ∨ h = 0x89)
    (outside : v.Outside a x) : disassembleOldWord v (h * 2 ^ 24 + a) (x :: rest) =
      some (command (if h = 0x89 then .awrite else .write) .plain [hex 8 a, hex 8 x], rest) := by
  obtain ⟨small, apart, _⟩ := outside
  have byte : h < 2 ^ 8 := by omega
  obtain ⟨header, address⟩ := oldHeader byte small
  have window : v.pbladdr &&& 0x00ffff00 = v.window := rfl
  unfold disassembleOldWord
  rw [header, address, window]
  rcases kind with rfl | rfl
  · simp only [quads, Bool.false_eq_true, false_and, if_false, if_neg apart]
    rfl
  · simp only [quads, Bool.false_eq_true, false_and, if_false, if_neg apart]
    rfl

theorem disassembleStop (quads : v.littleendian64b = false) (crc : Nat) :
    disassembleOldWord v (0x08 * 2 ^ 24 + (v.window + 0x40)) (crc :: rest) = some (crcStop crc, rest) := by
  obtain ⟨small, _, _⟩ := registerAt (v := v) (e := 0x40) (by decide)
  obtain ⟨header, _⟩ := oldHeader (h := 0x08) (by decide) small
  unfold disassembleOldWord
  rw [header]
  simp only [quads, Bool.false_eq_true, false_and, if_false, oneArgument]
  rfl

theorem disassembleOld (quads : v.littleendian64b = false) (inRange : c.InRange v) (rest : List Nat) :
    ∃ word x, c.words v = [word, x] ∧ disassembleOldWord v word (x :: rest) = some (c.text, rest) := by
  cases c with
  | wait n =>
    have printed : disassembleOldWord v (0x09 * 2 ^ 24 + (v.window + 0xc0)) (n :: rest) =
        some (Op.wait.word ++ ' ' :: decimal n, rest) := disassembleRegister quads (by decide)
    exact ⟨_, _, rfl, printed⟩
  | write a x => exact ⟨_, _, rfl, disassembleOutside quads (.inl rfl) inRange⟩
  | awrite a x => exact ⟨_, _, rfl, disassembleOutside quads (.inr rfl) inRange⟩
  | flush =>
    have printed : disassembleOldWord v (0x09 * 2 ^ 24 + (v.window + 0)) (0 :: rest) = some (Op.flush.word, rest) :=
      disassembleRegister quads (by decide)
    rw [Nat.add_zero] at printed
    exact ⟨_, _, rfl, printed⟩

theorem oldWordsSmall (inRange : c.InRange v) : ∀ x ∈ c.words v, x < 2 ^ 32 := by
  have window : v.window < 2 ^ 24 := by simpa using (registerAt (v := v) (e := 0) (by decide)).1
  have wait := (registerAt (v := v) (e := 0xc0) (by decide)).1
  cases c with
  | wait n =>
    have cycles : n < 2 ^ 32 := inRange
    simp only [OldCommand.words, List.forall_mem_cons, List.not_mem_nil, false_imp_iff, implies_true, and_true]
    omega
  | write a x =>
    obtain ⟨address, _, value⟩ := inRange
    simp only [OldCommand.words, List.forall_mem_cons, List.not_mem_nil, false_imp_iff, implies_true, and_true]
    omega
  | awrite a x =>
    obtain ⟨address, _, value⟩ := inRange
    simp only [OldCommand.words, List.forall_mem_cons, List.not_mem_nil, false_imp_iff, implies_true, and_true]
    omega
  | flush =>
    simp only [OldCommand.words, List.forall_mem_cons, List.not_mem_nil, false_imp_iff, implies_true, and_true]
    omega

theorem assembleOld (format : v.pbiformat ≠ 2) (big : v.littleendian = false) (inRange : c.InRange v) :
    v.assemble c.parsed = some (.ok (packAll false (c.words v))) := by
  have packed : packWords false (c.words v) = _ := packWordsAll (oldWordsSmall inRange)
  have window : v.pbladdr &&& 0x00ffff00 = v.window := rfl
  cases c with
  | wait n =>
    have word : 0x090000c0 ||| v.window = 0x09 * 2 ^ 24 + (v.window + 0xc0) :=
      windowWord 0x09 (show 0xc0 < 2 ^ 8 by decide)
    simp only [Vars.assemble, OldCommand.parsed, if_neg format, big, window, word]
    exact congrArg (Option.map Except.ok) packed
  | write a x =>
    simp only [Vars.assemble, OldCommand.parsed, if_neg format, big]
    exact congrArg (Option.map Except.ok) packed
  | awrite a x =>
    simp only [Vars.assemble, OldCommand.parsed, if_neg format, big]
    exact congrArg (Option.map Except.ok) packed
  | flush =>
    have word : 0x09000000 ||| v.window = 0x09 * 2 ^ 24 + (v.window + 0) :=
      windowWord 0x09 (show 0 < 2 ^ 8 by decide)
    simp only [Vars.assemble, OldCommand.parsed, window, word, Nat.add_zero]
    exact congrArg (Option.map Except.ok) packed

end Words

section Sections

variable {v : Vars} {eval : Text → Option Nat} {cs : List OldCommand} {lines : List Text}

def ReadsOld (eval : Text → Option Nat) (l : Text) (c : OldCommand) : Prop := parseLine eval l = some (.ok c.parsed)

theorem buildOld (format : v.pbiformat ≠ 2) (big : v.littleendian = false)
    (reads : List.Forall₂ (ReadsOld eval) lines cs) (inRange : ∀ c ∈ cs, c.InRange v) (subsection : List Nat) :
    v.buildPbi eval subsection lines = some (.ok (subsection ++ packAll false (cs.flatMap (·.words v)))) := by
  induction reads generalizing subsection with
  | nil => simp [Vars.buildPbi, packAll]
  | cons first reads later =>
    rename_i l c ls cs
    have parsed : parseLine eval l = some (.ok c.parsed) := first
    have line : v.buildLine eval l = some (.ok (packAll false (c.words v))) := by
      simp only [Vars.buildLine, parsed, assembleOld format big (inRange c List.mem_cons_self)]
    simp only [Vars.buildPbi, line]
    rw [later fun c mem => inRange c (List.mem_cons_of_mem _ mem)]
    simp [packAll]

theorem disassembleOlds (quads : v.littleendian64b = false) (inRange : ∀ c ∈ cs, c.InRange v) (fuel : Nat)
    (rest : List Nat) : disassembleOldWords v (cs.length + fuel) (cs.flatMap (·.words v) ++ rest) =
      (disassembleOldWords v fuel rest).map (cs.map OldCommand.text ++ ·) := by
  induction cs with
  | nil => simp
  | cons c cs later =>
    obtain ⟨word, x, shape, line⟩ := disassembleOld quads (inRange c List.mem_cons_self)
      (cs.flatMap (·.words v) ++ rest)
    have others := later fun c mem => inRange c (List.mem_cons_of_mem _ mem)
    rw [List.length_cons, Nat.add_right_comm, List.flatMap_cons, shape]
    simp only [List.cons_append, List.nil_append, disassembleOldWords, line, Option.bind_eq_bind,
      Option.bind_some, others]
    cases disassembleOldWords v fuel rest <;> rfl

theorem flatOldSmall (inRange : ∀ c ∈ cs, c.InRange v) : ∀ x ∈ cs.flatMap (·.words v), x < 2 ^ 32 := by
  intro x mem
  obtain ⟨c, member, word⟩ := List.mem_flatMap.mp mem
  exact oldWordsSmall (inRange c member) x word

theorem flatOldLength (v : Vars) (cs : List OldCommand) : (cs.flatMap (·.words v)).length = cs.length + cs.length := by
  induction cs with
  | nil => rfl
  | cons c cs rest =>
    have two : (c.words v).length = 2 := by cases c <;> rfl
    rw [List.flatMap_cons, List.length_append, rest, two, List.length_cons]
    omega

theorem sourceOfWords (format : v.pbiformat ≠ 2) (big : v.littleendian = false) {xs : List Nat} {texts : List Text}
    (small : ∀ x ∈ xs, x < 2 ^ 32) (some_ : xs ≠ []) (shown : disassembleOldWords v xs.length xs = some texts) :
    v.pbiSource (packAll false xs) = some ([[], ".pbi".toList] ++ texts ++ [".end".toList]) := by
  have nonempty : packAll false xs ≠ [] := by
    cases xs with
    | nil => exact absurd rfl some_
    | cons x xs =>
      intro empty
      have length := congrArg List.length empty
      rw [packAll, List.flatMap_cons, List.length_append, packLength, List.length_nil] at length
      omega
  unfold Vars.pbiSource
  rw [if_neg nonempty, big, wordsPacked small, if_neg format, shown]
  rfl

theorem commandsSource (format : v.pbiformat ≠ 2) (big : v.littleendian = false) (quads : v.littleendian64b = false)
    (inRange : ∀ c ∈ cs, c.InRange v) : v.pbiSource (packAll false (cs.flatMap (·.words v))) =
      some (if cs = [] then [] else [[], ".pbi".toList] ++ cs.map OldCommand.text ++ [".end".toList]) := by
  cases cs with
  | nil => rfl
  | cons c cs =>
    have some_ : (c :: cs).flatMap (·.words v) ≠ [] := by
      intro empty
      have length := flatOldLength v (c :: cs)
      rw [empty] at length
      simp at length
    have shown := disassembleOlds quads inRange (c :: cs).length []
    rw [List.append_nil, ← flatOldLength v] at shown
    have done : disassembleOldWords v (c :: cs).length [] = some [] := rfl
    rw [done] at shown
    rw [sourceOfWords format big (flatOldSmall inRange) some_ shown, if_neg (List.cons_ne_nil c cs)]
    simp

theorem stoppedSource (format : v.pbiformat ≠ 2) (big : v.littleendian = false) (quads : v.littleendian64b = false)
    (inRange : ∀ c ∈ cs, c.InRange v) {crc : Nat} (small : crc < 2 ^ 32) :
    v.pbiSource (packAll false (cs.flatMap (·.words v)) ++ packAll false [0x08 * 2 ^ 24 + (v.window + 0x40), crc]) =
      some ([[], ".pbi".toList] ++ (cs.map OldCommand.text ++ [crcStop crc]) ++ [".end".toList]) := by
  have window := (registerAt (v := v) (e := 0x40) (by decide)).1
  have shown := disassembleOlds quads inRange (cs.length + 2) [0x08 * 2 ^ 24 + (v.window + 0x40), crc]
  have last : disassembleOldWords v (cs.length + 2) [0x08 * 2 ^ 24 + (v.window + 0x40), crc] = some [crcStop crc] := by
    have stop : disassembleOldWord v (0x08 * 2 ^ 24 + (v.window + 0x40)) [crc] = some (crcStop crc, []) :=
      disassembleStop quads crc
    simp only [disassembleOldWords, stop, Option.bind_eq_bind, Option.bind_some]
  rw [last, Option.map_some] at shown
  have together : packAll false (cs.flatMap (·.words v)) ++ packAll false [0x08 * 2 ^ 24 + (v.window + 0x40), crc] =
      packAll false (cs.flatMap (·.words v) ++ [0x08 * 2 ^ 24 + (v.window + 0x40), crc]) := by
    simp [packAll]
  have words : ∀ x ∈ cs.flatMap (·.words v) ++ [0x08 * 2 ^ 24 + (v.window + 0x40), crc], x < 2 ^ 32 := by
    intro x mem
    rcases List.mem_append.mp mem with front | back
    · exact flatOldSmall inRange x front
    · simp only [List.mem_cons, List.not_mem_nil, or_false] at back
      omega
  rw [together]
  apply sourceOfWords format big words (by simp)
  rw [List.length_append, flatOldLength, Nat.add_assoc]
  exact shown

theorem crcLt (data : List Nat) : crc32 data < 2 ^ 32 := by
  unfold crc32
  induction data using List.reverseRecOn with
  | nil => decide
  | append_singleton data i _ =>
    rw [List.foldl_append]
    exact Nat.and_lt_two_pow _ (by decide)

theorem packedPair (x y : Nat) : packAll false [x, y] = pack false 4 x ++ pack false 4 y := by simp [packAll]

theorem endWords (crc : v.nocrc ≠ 1) (format : v.pbiformat ≠ 2) (big : v.littleendian = false)
    (binary pbi : List Nat) : ∃ sum, sum < 2 ^ 32 ∧
      v.endCommand binary pbi = some (packAll false [0x08 * 2 ^ 24 + (v.window + 0x40), sum]) := by
  have window := (registerAt (v := v) (e := 0x40) (by decide)).1
  have word : 0x08000040 ||| (v.pbladdr &&& 0x00ffff00) = 0x08 * 2 ^ 24 + (v.window + 0x40) :=
    windowWord 0x08 (show 0x40 < 2 ^ 8 by decide)
  have cmd : packL false (0x08 * 2 ^ 24 + (v.window + 0x40)) =
      some (pack false 4 (0x08 * 2 ^ 24 + (v.window + 0x40))) := if_pos (by omega)
  have summed : ∀ sum, sum < 2 ^ 32 → packL false sum = some (pack false 4 sum) := fun sum small => if_pos small
  unfold Vars.endCommand
  rw [if_neg crc, if_neg format, if_neg format, if_neg format, big, word, cmd]
  simp only [Option.bind_eq_bind, Option.bind_some, Nat.xor_zero]
  cases v.classicbitnumbers with
  | false =>
    simp only [Bool.false_eq_true, if_false]
    rw [summed _ (crcLt _)]
    exact ⟨_, crcLt _, congrArg some (packedPair _ _).symm⟩
  | true =>
    simp only [if_true]
    rw [summed _ mirrorLt]
    exact ⟨_, mirrorLt, congrArg some (packedPair _ _).symm⟩

theorem traditionalListed (v : Vars) (eval : Text → Option Nat) (lines : List Text) (cs : List OldCommand)
    (format : v.pbiformat ≠ 2) (big : v.littleendian = false) (quads : v.littleendian64b = false)
    (evaluates : Evaluates eval) (reads : List.Forall₂ (ReadsOld eval) lines cs)
    (inRange : ∀ c ∈ cs, c.InRange v) :
    ∃ pbi, v.buildPbi eval [] lines = some (.ok pbi) ∧
      (∃ source, v.pbiSource pbi = some source ∧ listedCommands eval source = cs.map OldCommand.parsed) ∧
      (v.nocrc ≠ 1 → ∀ binary, ∃ stop source, v.endCommand binary pbi = some stop ∧
        v.pbiSource (pbi ++ stop) = some source ∧ listedCommands eval source = cs.map OldCommand.parsed) := by
  have built := buildOld format big reads inRange []
  rw [List.nil_append] at built
  refine ⟨_, built, ⟨_, commandsSource format big quads inRange, ?_⟩, fun crc binary => ?_⟩
  · cases cs with
    | nil => rfl
    | cons c cs =>
      rw [if_neg (List.cons_ne_nil c cs)]
      have listed := listedSection evaluates (c :: cs) []
      rwa [List.map_nil, List.append_nil] at listed
  · obtain ⟨sum, small, ended⟩ := endWords crc format big binary (packAll false (cs.flatMap (·.words v)))
    exact ⟨_, _, ended, stoppedSource format big quads inRange small, listedSection evaluates cs [sum]⟩

end Sections

theorem traditionalListedThree :
    ∃ pbi, traditional.buildPbi intLiteral [] ["wait 5".toList, "write 0x1000,18".toList, "flush".toList] =
      some (.ok pbi) ∧ ∃ source, traditional.pbiSource pbi = some source ∧
        listedCommands intLiteral source = [OldCommand.wait 5, .write 0x1000 18, .flush].map OldCommand.parsed := by
  have reads : List.Forall₂ (ReadsOld intLiteral) ["wait 5".toList, "write 0x1000,18".toList, "flush".toList]
      [.wait 5, .write 0x1000 18, .flush] := .cons rfl (.cons rfl (.cons rfl .nil))
  have inRange : ∀ c ∈ [OldCommand.wait 5, .write 0x1000 18, .flush], c.InRange traditional := by
    simp [OldCommand.InRange, Vars.Outside, Vars.window, traditional]
  obtain ⟨pbi, built, listed, _⟩ := traditionalListed traditional intLiteral _ _ (by decide) rfl rfl
    (fun _ _ literal => literal) reads inRange
  exact ⟨pbi, built, listed⟩

end Flexbuild.Rcw
