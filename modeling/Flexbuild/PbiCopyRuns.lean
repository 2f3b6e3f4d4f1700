import Flexbuild.PbiCopy
import Mathlib.Tactic.IntervalCases
/-! What the appended commands do. A run of the loop over an image is a list of pieces; the
stream parses to the commands of these pieces, whose bytes come to lie one behind the other as
long as no piece starts behind the window, and all of them continue when the length is even. -/
namespace Flexbuild.PbiCopy
open ByteMemory (Byte)
open Fields

theorem swappedByte (word : BitVec 32) :
    (byteSwap32 word).extractLsb' 0 8 = word.extractLsb' 24 8 ∧ (byteSwap32 word).extractLsb' 8 8 = word.extractLsb' 16 8 ∧
      (byteSwap32 word).extractLsb' 16 8 = word.extractLsb' 8 8 ∧ (byteSwap32 word).extractLsb' 24 8 = word.extractLsb' 0 8 := by
  refine ⟨?_, ?_, ?_, ?_⟩ <;> ext i inside <;> interval_cases i <;> simp [byteSwap32]

theorem fwriteSwapped (word : BitVec 32) : fwriteWord (byteSwap32 word) = fullBytes word := by
  obtain ⟨first, second, third, fourth⟩ := swappedByte word
  simp only [fwriteWord, first, second, third, fourth]
  have nested (offset start : Nat) (inside : start + 8 ≤ 16) :
      (word.extractLsb' offset 16).extractLsb' start 8 = word.extractLsb' (offset + start) 8 := by
    ext i below
    have within : start + i < 16 := by omega
    simp [within, Nat.add_assoc]
  simp only [fullBytes, halfBytes, nested 16 8 (by omega), nested 16 0 (by omega), nested 0 8 (by omega), nested 0 0 (by omega)]
  rfl

theorem pieceTop (base : BitVec 32) (d : BitVec 32) :
    (base ||| (d &&& offsetMask)).extractLsb' 24 8 = base.extractLsb' 24 8 := by
  have clear : offsetMask.extractLsb' 24 8 = 0#8 := by decide
  rw [BitVec.extractLsb'_or, BitVec.extractLsb'_and, clear, BitVec.and_zero, BitVec.or_zero]

theorem pieceAddress (d : BitVec 32) (size : Nat) :
    ((writeCmdBase size ||| (d &&& offsetMask)).extractLsb' 0 24) = d.extractLsb' 0 24 := by
  have clear : (writeCmdBase size).extractLsb' 0 24 = 0#24 := by
    unfold writeCmdBase
    split <;> decide
  have full : offsetMask.extractLsb' 0 24 = BitVec.allOnes 24 := by decide
  rw [BitVec.extractLsb'_or, BitVec.extractLsb'_and, clear, full, BitVec.and_allOnes, BitVec.zero_or]

theorem windowKept (dst : BitVec 32) (address : BitVec 24) :
    acsAddress ((0xfff00000#32 &&& dst) >>> 16) address = dst.toNat / 2 ^ 24 * 2 ^ 24 + address.toNat := by
  have joined : (((0xfff00000#32 &&& dst) >>> 16) <<< 16 &&& 0xff000000#32) ||| address.setWidth 32 =
      dst.extractLsb' 24 8 ++ address := by
    ext i inside
    rw [BitVec.getElem_append]
    interval_cases i <;> simp
  rw [acsAddress, joined, BitVec.toNat_append, ← Nat.shiftLeft_add_eq_or_of_lt address.isLt, BitVec.extractLsb'_toNat, Nat.shiftLeft_eq, Nat.shiftRight_eq_div_pow,
    Nat.mod_eq_of_lt (by have := dst.isLt; omega)]

theorem nextOffset (d : BitVec 32) (size : Nat) :
    ((d &&& offsetMask) + BitVec.ofNat 32 size).toNat % 2 ^ 24 = (d.toNat + size) % 2 ^ 24 := by
  have masked : (d &&& offsetMask).toNat = d.toNat % 2 ^ 24 := by
    rw [BitVec.toNat_and]
    exact Nat.and_two_pow_sub_one_eq_mod d.toNat 24
  rw [BitVec.toNat_add, masked, BitVec.toNat_ofNat]
  omega

theorem pieceSmall : ∀ n < 64, 0 < n → pickLength n 64 ∈ [32, 16, 8, 4, 2, 1] ∧ pickLength n 64 ≤ n ∧
    (pickLength n 64 = n → n.gcd 64 = n) ∧ (pickLength n 64 < n → (n - pickLength n 64).gcd 64 = n.gcd 64) ∧
    (2 ∣ n ↔ pickLength n 64 ≠ 1 ∧ 2 ∣ n - pickLength n 64) := by
  decide

variable {n : Nat}

theorem pieceLarge (large : 64 ≤ n) : pickLength n 64 = 64 := if_neg (by omega)

theorem pieceSize (nonempty : 0 < n) : pickLength n 64 ∈ [64, 32, 16, 8, 4, 2, 1] := by
  by_cases small : n < 64
  · exact List.mem_cons_of_mem 64 (pieceSmall n small nonempty).1
  · rw [pieceLarge (by omega)]
    exact List.mem_cons_self

theorem pieceFits (nonempty : 0 < n) : 0 < pickLength n 64 ∧ pickLength n 64 ≤ n := by
  constructor
  · have sizes : ∀ size ∈ [64, 32, 16, 8, 4, 2, 1], 0 < size := by decide
    exact sizes _ (pieceSize nonempty)
  · by_cases small : n < 64
    · exact (pieceSmall n small nonempty).2.1
    · rw [pieceLarge (by omega)]
      omega

theorem pieceEven (nonempty : 0 < n) : 2 ∣ n ↔ pickLength n 64 ≠ 1 ∧ 2 ∣ n - pickLength n 64 := by
  by_cases small : n < 64
  · exact (pieceSmall n small nonempty).2.2.2.2
  · rw [pieceLarge (by omega)]
    omega

def lastStart (n : Nat) : Nat := n - n.gcd 64

theorem lastStartWhole (whole : pickLength n 64 = n) : lastStart n = 0 := by
  rcases Nat.eq_zero_or_pos n with rfl | nonempty
  · rfl
  · have same : n.gcd 64 = n := by
      by_cases small : n < 64
      · exact (pieceSmall n small nonempty).2.2.1 whole
      · rw [pieceLarge (by omega)] at whole
        rw [← whole]
        rfl
    rw [lastStart, same, Nat.sub_self]

theorem lastStartCut (cut : pickLength n 64 < n) :
    lastStart n = pickLength n 64 + lastStart (n - pickLength n 64) := by
  have same : (n - pickLength n 64).gcd 64 = n.gcd 64 := by
    by_cases small : n < 64
    · exact (pieceSmall n small (by omega)).2.2.2.1 cut
    · rw [pieceLarge (by omega)]
      exact Nat.gcd_sub_right_left_of_dvd _ (by omega) (dvd_refl 64)
  have below : (n - pickLength n 64).gcd 64 ≤ n - pickLength n 64 := Nat.gcd_le_left _ (by omega)
  unfold lastStart
  rw [same] at below ⊢
  omega

def pieceCommand (rest : List Byte) (d : BitVec 32) : Command :=
  ⟨writeCmdBase (pickLength rest.length 64) ||| (d &&& offsetMask), rest.take (pickLength rest.length 64)⟩

theorem baseTop {size : Nat} (member : size ∈ [64, 32, 16, 8, 4, 2, 1]) :
    ((writeCmdBase size).extractLsb' 24 8).getLsbD 7 = true ∧
      (((writeCmdBase size).extractLsb' 24 8).getLsbD 0 = true ↔ size ≠ 1) ∧ byteCount (writeCmdBase size) = size := by
  have each : ∀ size ∈ [64, 32, 16, 8, 4, 2, 1], ((writeCmdBase size).extractLsb' 24 8).getLsbD 7 = true ∧
      (((writeCmdBase size).extractLsb' 24 8).getLsbD 0 = true ↔ size ≠ 1) ∧ byteCount (writeCmdBase size) = size := by
    decide
  exact each size member

section
variable {rest : List Byte} {d : BitVec 32} (nonempty : 0 < rest.length)
include nonempty

theorem pieceAcs : (pieceCommand rest d).acs = true := by
  rw [Command.acs, Command.top, pieceCommand, pieceTop]
  exact (baseTop (pieceSize nonempty)).1

theorem pieceCont : (pieceCommand rest d).cont = true ↔ pickLength rest.length 64 ≠ 1 := by
  rw [Command.cont, Command.top, pieceCommand, pieceTop]
  exact (baseTop (pieceSize nonempty)).2.1

theorem pieceCount : byteCount (pieceCommand rest d).word = (pieceCommand rest d).data.length := by
  rw [byteCount, pieceCommand, pieceTop, List.length_take_of_le (pieceFits nonempty).2]
  exact (baseTop (pieceSize nonempty)).2.2

end

theorem commandAddress (rest : List Byte) (d : BitVec 32) : (pieceCommand rest d).address.toNat = d.toNat % 2 ^ 24 := by
  rw [Command.address, pieceCommand, pieceAddress, BitVec.extractLsb'_toNat, Nat.shiftRight_zero]

inductive Copied : List Byte → BitVec 32 → List Command → Prop where
  | done (d : BitVec 32) : Copied [] d []
  | piece {rest d commands} (nonempty : 0 < rest.length)
      (tail : Copied (rest.drop (pickLength rest.length 64))
        ((d &&& offsetMask) + BitVec.ofNat 32 (pickLength rest.length 64)) commands) :
      Copied rest d (pieceCommand rest d :: commands)

theorem copiedExists (rest : List Byte) (d : BitVec 32) : ∃ commands, Copied rest d commands := by
  induction length : rest.length using Nat.strong_induction_on generalizing rest d with
  | _ n shorter =>
    subst length
    rcases Nat.eq_zero_or_pos rest.length with empty | nonempty
    · rw [List.length_eq_zero_iff] at empty
      exact ⟨[], empty ▸ .done d⟩
    · have less : (rest.drop (pickLength rest.length 64)).length < rest.length := by
        have := (pieceFits nonempty).1
        rw [List.length_drop]
        omega
      obtain ⟨commands, tail⟩ := shorter _ less _ ((d &&& offsetMask) + BitVec.ofNat 32 (pickLength rest.length 64)) rfl
      exact ⟨_, .piece nonempty tail⟩

theorem pickKept {n left : Nat} (full : 64 ≤ n → left = 64) (nonempty : 0 < n) : pickLength n left = pickLength n 64 := by
  have found : n < 64 → ([32, 16, 8, 4, 2, 1].find? (· ≤ n)).isSome := by
    intro _
    exact List.find?_isSome.mpr ⟨1, by simp, decide_eq_true nonempty⟩
  unfold pickLength
  split
  · obtain ⟨size, same⟩ := Option.isSome_iff_exists.mp (found ‹_›)
    rw [same]
    rfl
  · exact full (by omega)

variable {commands : List Command}

theorem copyLoopRuns {rest : List Byte} {d : BitVec 32} (run : Copied rest d commands)
    {fuel left : Nat} (enough : rest.length < fuel) (full : 64 ≤ rest.length → left = 64) :
    copyLoop fuel rest rest.length left d = some (commands.flatMap Command.bytes) := by
  induction run generalizing fuel left with
  | done d =>
    obtain ⟨fuel, rfl⟩ := Nat.exists_eq_succ_of_ne_zero (Nat.ne_of_gt enough)
    rfl
  | @piece rest d commands nonempty tail continued =>
    obtain ⟨fuel, rfl⟩ := Nat.exists_eq_succ_of_ne_zero (Nat.ne_of_gt (Nat.zero_lt_of_lt enough))
    obtain ⟨positive, within⟩ := pieceFits nonempty
    have read : (rest.take (pickLength rest.length 64)).length = pickLength rest.length 64 :=
      List.length_take_of_le within
    have later := @continued fuel (pickLength rest.length 64) (by rw [List.length_drop]; omega) (by
      intro large
      rw [List.length_drop] at large
      exact pieceLarge (by omega))
    rw [List.length_drop] at later
    simp only [copyLoop, if_neg (Nat.ne_of_gt nonempty), pickKept full nonempty, if_pos within, read, Nat.sub_self,
      List.replicate_zero, List.append_nil, fwriteSwapped, later]
    rfl

theorem wordRead (word : BitVec 32) (rest : List Byte) : fullAt (fullBytes word ++ rest) 0 = word := by
  have joined : word.extractLsb' 16 16 ++ word.extractLsb' 0 16 = word := BitVec.extractLsb'_append_extractLsb'
  have half (v : BitVec 16) : v.extractLsb' 8 8 ++ v.extractLsb' 0 8 = v := BitVec.extractLsb'_append_extractLsb'
  calc fullAt (fullBytes word ++ rest) 0
      = (((word.extractLsb' 16 16).extractLsb' 8 8 ++ (word.extractLsb' 16 16).extractLsb' 0 8) ++
          ((word.extractLsb' 0 16).extractLsb' 8 8 ++ (word.extractLsb' 0 16).extractLsb' 0 8)) := rfl
    _ = word := by rw [half, half, joined]

theorem bytesLength (c : Command) : c.bytes.length = 4 + c.data.length := by
  rw [Command.bytes, List.length_append]
  rfl

theorem parseBytes (sized : ∀ c ∈ commands, byteCount c.word = c.data.length) {fuel : Nat}
    (enough : commands.length ≤ fuel) : parse fuel (commands.flatMap Command.bytes) = some commands := by
  induction commands generalizing fuel with
  | nil => cases fuel <;> rfl
  | cons c rest tail =>
    obtain ⟨fuel, rfl⟩ := Nat.exists_eq_succ_of_ne_zero (Nat.ne_of_gt (Nat.zero_lt_of_lt enough))
    have own := sized c List.mem_cons_self
    have later := tail (fun c member => sized c (List.mem_cons_of_mem _ member)) (Nat.le_of_succ_le_succ enough)
    have stream : (c :: rest).flatMap Command.bytes = fullBytes c.word ++ (c.data ++ rest.flatMap Command.bytes) := by
      rw [List.flatMap_cons, Command.bytes, List.append_assoc]
    have length : (fullBytes c.word).length = 4 := rfl
    have front : (fullBytes c.word ++ (c.data ++ rest.flatMap Command.bytes)).drop 4 = c.data ++ rest.flatMap Command.bytes :=
      List.drop_left' length
    have behind : (fullBytes c.word ++ (c.data ++ rest.flatMap Command.bytes)).drop (4 + c.data.length) =
        rest.flatMap Command.bytes := by
      rw [← List.drop_drop, front, List.drop_left]
    have long : ¬(fullBytes c.word ++ (c.data ++ rest.flatMap Command.bytes)).length < 4 + c.data.length := by
      simp only [List.length_append, length]
      omega
    have filled : fullBytes c.word ++ (c.data ++ rest.flatMap Command.bytes) ≠ [] := List.cons_ne_nil _ _
    rw [stream, parse.eq_3 _ _ filled]
    simp only [wordRead, own, if_neg long, front, behind, later, List.take_left]
    rfl

def traceOf (window : Nat) (commands : List Command) : List (Nat × Byte) :=
  commands.flatMap fun c => placed (window + c.address.toNat) c.data

@[simp] theorem placedLength (address : Nat) (data : List Byte) : (placed address data).length = data.length := by
  simp [placed]

theorem placedAppend (address : Nat) (front back : List Byte) :
    placed address (front ++ back) = placed address front ++ placed (address + front.length) back := by
  unfold placed
  rw [List.length_append, ← List.range'_append, List.zip_append (by simp), Nat.one_mul]

theorem placedAddress {a b : Nat} {data : List Byte} (nonempty : 0 < data.length) (same : placed a data = placed b data) :
    a = b := by
  obtain ⟨first, rest, rfl⟩ := List.exists_cons_of_length_pos nonempty
  simp only [placed, List.length_cons, List.range'_succ, List.zip_cons_cons, List.cons.injEq, Prod.mk.injEq] at same
  exact same.1.1

theorem appendIff {front front' back back' : List (Nat × Byte)} (same : front.length = front'.length) :
    front ++ back = front' ++ back' ↔ front = front' ∧ back = back' :=
  ⟨fun equal => List.append_inj equal same, fun ⟨first, second⟩ => first ▸ second ▸ rfl⟩

variable {rest : List Byte} {d : BitVec 32} {commands : List Command}

theorem copiedShape (run : Copied rest d commands) : ∀ c ∈ commands, c.acs = true ∧ byteCount c.word = c.data.length := by
  induction run with
  | done d => exact fun _ member => absurd member List.not_mem_nil
  | piece nonempty tail later =>
    intro c member
    rcases List.mem_cons.mp member with rfl | behind
    · exact ⟨pieceAcs nonempty, pieceCount nonempty⟩
    · exact later c behind

theorem copiedContinues (run : Copied rest d commands) : (∀ c ∈ commands, c.cont = true) ↔ 2 ∣ rest.length := by
  induction run with
  | done d => simp
  | piece nonempty tail later => rw [List.forall_mem_cons, later, pieceCont nonempty, pieceEven nonempty, List.length_drop]

theorem traceLength (window : Nat) (run : Copied rest d commands) : (traceOf window commands).length = rest.length := by
  induction run with
  | done d => rfl
  | @piece rest d commands nonempty tail later =>
    have split : traceOf window (pieceCommand rest d :: commands) =
        placed (window + (pieceCommand rest d).address.toNat) (pieceCommand rest d).data ++ traceOf window commands :=
      List.flatMap_cons
    have within := (pieceFits nonempty).2
    rw [split, List.length_append, placedLength, later, pieceCommand, List.length_take_of_le within, List.length_drop]
    omega

theorem tracePlaced (window : Nat) (run : Copied rest d commands) {A : Nat} (same : d.toNat % 2 ^ 24 = A % 2 ^ 24) :
    traceOf window commands = placed (window + A) rest ↔ rest = [] ∨ A + lastStart rest.length < 2 ^ 24 := by
  induction run generalizing A with
  | done d => exact iff_of_true rfl (Or.inl rfl)
  | @piece rest d commands nonempty tail later =>
    obtain ⟨positive, within⟩ := pieceFits nonempty
    have length : (rest.take (pickLength rest.length 64)).length = pickLength rest.length 64 :=
      List.length_take_of_le within
    have target : placed (window + A) rest = placed (window + A) (rest.take (pickLength rest.length 64)) ++
        placed (window + (A + pickLength rest.length 64)) (rest.drop (pickLength rest.length 64)) := by
      have := placedAppend (window + A) (rest.take (pickLength rest.length 64)) (rest.drop (pickLength rest.length 64))
      rwa [List.take_append_drop, length, Nat.add_assoc] at this
    have source : traceOf window (pieceCommand rest d :: commands) =
        placed (window + d.toNat % 2 ^ 24) (rest.take (pickLength rest.length 64)) ++ traceOf window commands := by
      rw [← commandAddress rest d]
      exact List.flatMap_cons
    have next : ((d &&& offsetMask) + BitVec.ofNat 32 (pickLength rest.length 64)).toNat % 2 ^ 24 =
        (A + pickLength rest.length 64) % 2 ^ 24 := by
      rw [nextOffset, Nat.add_mod, same, ← Nat.add_mod]
    have first : placed (window + d.toNat % 2 ^ 24) (rest.take (pickLength rest.length 64)) =
        placed (window + A) (rest.take (pickLength rest.length 64)) ↔ A < 2 ^ 24 := by
      constructor
      · intro equal
        have := placedAddress (by omega) equal
        omega
      · intro below
        rw [same, Nat.mod_eq_of_lt below]
    rw [source, target, appendIff (by rw [placedLength, placedLength]), first, later next, List.drop_eq_nil_iff, List.length_drop]
    have filled : rest ≠ [] := List.ne_nil_of_length_pos nonempty
    rw [or_iff_right filled]
    rcases Nat.lt_or_eq_of_le within with cut | whole
    · rw [lastStartCut cut]
      omega
    · rw [lastStartWhole whole, whole]
      omega

theorem executePieces (altcbar : BitVec 32) {commands more : List Command} (acs : ∀ c ∈ commands, c.acs = true) :
    execute altcbar (commands ++ more) =
      (execute altcbar more).map ((commands.flatMap fun c => placed (acsAddress altcbar c.address) c.data) ++ ·) := by
  induction commands with
  | nil => simp
  | cons c rest tail =>
    have split : execute altcbar (c :: rest ++ more) =
        (execute altcbar (rest ++ more)).map (placed (acsAddress altcbar c.address) c.data ++ ·) :=
      if_pos (acs c List.mem_cons_self)
    rw [split, tail fun c member => acs c (List.mem_cons_of_mem _ member), Option.map_map, List.flatMap_cons]
    congr 1
    funext trace
    exact (List.append_assoc _ _ _).symm

def altcbarOf (dst : BitVec 32) : BitVec 32 := (0xfff00000#32 &&& dst) >>> 16

def headCommands (dst : BitVec 32) : List Command :=
  [⟨0x09570158#32, fullBytes (altcbarOf dst)⟩, ⟨0x096100c0#32, fullBytes 0x000fffff#32⟩]

theorem executeHead (altcbar dst : BitVec 32) (more : List Command) :
    execute altcbar (headCommands dst ++ more) = execute (altcbarOf dst) more := by
  have register : fullAt (fullBytes (altcbarOf dst)) 0 = altcbarOf dst := by
    have := wordRead (altcbarOf dst) []
    rwa [List.append_nil] at this
  have set : ∀ data, (Command.mk 0x09570158#32 data).acs = false ∧ (Command.mk 0x09570158#32 data).address = altcbarRegister := by
    intro data
    simp only [Command.acs, Command.top, Command.address]
    decide
  have wait : ∀ data, (Command.mk 0x096100c0#32 data).acs = false ∧
      (Command.mk 0x096100c0#32 data).address ≠ altcbarRegister ∧ inPblWindow (Command.mk 0x096100c0#32 data).address = true := by
    intro data
    simp only [Command.acs, Command.top, Command.address]
    decide
  simp only [headCommands, List.cons_append, List.nil_append, execute, (set _).1, (set _).2, (wait _).1, (wait _).2, register,
    if_true, if_false, Bool.false_eq_true]

theorem copyImageRuns {c : CpCmd} (run : Copied c.image c.dst commands) {fuel : Nat}
    (enough : c.image.length < fuel) :
    copyImage fuel c = some ((headCommands c.dst ++ commands).flatMap Command.bytes) := by
  unfold copyImage
  rw [copyLoopRuns run enough fun _ => rfl]
  simp only [Option.map_some, altcbarAddress, waitCmdWriteAddress, waitCmd, fwriteSwapped, headCommands, altcbarOf,
    Command.bytes, List.flatMap_append, List.flatMap_cons, List.flatMap_nil, List.append_assoc, List.nil_append]

inductive Streams : List CpCmd → List Command → Prop where
  | nil : Streams [] []
  | cons {c images commands stream} (run : Copied c.image c.dst commands) (tail : Streams images stream) :
      Streams (c :: images) (headCommands c.dst ++ commands ++ stream)

theorem streamExists (images : List CpCmd) : ∃ stream, Streams images stream := by
  induction images with
  | nil => exact ⟨[], .nil⟩
  | cons c images tail =>
    obtain ⟨stream, later⟩ := tail
    obtain ⟨commands, run⟩ := copiedExists c.image c.dst
    exact ⟨_, .cons run later⟩

variable {images : List CpCmd} {stream : List Command}

theorem streamWritten (streams : Streams images stream) {fuel : Nat} (enough : ∀ c ∈ images, c.image.length < fuel) :
    addCpyCmd fuel images = some (stream.flatMap Command.bytes) := by
  induction streams with
  | nil => rfl
  | @cons c images commands stream run tail later =>
    have rest := later fun c member => enough c (List.mem_cons_of_mem _ member)
    simp only [addCpyCmd, copyImageRuns run (enough c List.mem_cons_self), rest, Option.map_some, List.flatMap_append]

theorem streamSized (streams : Streams images stream) : ∀ c ∈ stream, byteCount c.word = c.data.length := by
  induction streams with
  | nil => exact fun _ member => absurd member List.not_mem_nil
  | cons run tail later =>
    intro c member
    rw [List.mem_append, List.mem_append] at member
    rcases member with (front | piece) | behind
    · rw [headCommands, List.mem_cons, List.mem_singleton] at front
      have counts : byteCount 0x09570158#32 = 4 ∧ byteCount 0x096100c0#32 = 4 := by decide
      rcases front with rfl | rfl
      · exact counts.1
      · exact counts.2
    · exact (copiedShape run c piece).2
    · exact later c behind

theorem streamContinues (streams : Streams images stream) :
    (∀ c ∈ stream, c.cont = true) ↔ ∀ c ∈ images, 2 ∣ c.image.length := by
  induction streams with
  | nil => simp
  | @cons c images commands stream run tail later =>
    have front : ∀ h ∈ headCommands c.dst, h.cont = true := by
      intro h member
      rw [headCommands, List.mem_cons, List.mem_singleton] at member
      rcases member with rfl | rfl <;> simp only [Command.cont, Command.top] <;> decide
    rw [List.forall_mem_append, List.forall_mem_append, List.forall_mem_cons, later, copiedContinues run, and_iff_right front]

theorem streamExecutes (streams : Streams images stream) : ∃ trace, (∀ altcbar, execute altcbar stream = some trace) ∧
    (trace = (images.flatMap fun c => placed c.dst.toNat c.image) ↔
      ∀ c ∈ images, c.dst.toNat % 2 ^ 24 + lastStart c.image.length < 2 ^ 24) := by
  induction streams with
  | nil => exact ⟨[], fun _ => rfl, by simp⟩
  | @cons c images commands stream run tail later =>
    obtain ⟨trace, executes, right⟩ := later
    have window (address : BitVec 24) : acsAddress (altcbarOf c.dst) address =
        c.dst.toNat / 2 ^ 24 * 2 ^ 24 + address.toNat := windowKept c.dst address
    have own : c.dst.toNat / 2 ^ 24 * 2 ^ 24 + c.dst.toNat % 2 ^ 24 = c.dst.toNat := Nat.div_add_mod' _ _
    refine ⟨traceOf (c.dst.toNat / 2 ^ 24 * 2 ^ 24) commands ++ trace, fun altcbar => ?_, ?_⟩
    · rw [List.append_assoc, executeHead, executePieces _ fun c member => (copiedShape run c member).1, executes]
      simp only [window]
      rfl
    · have placedHere := tracePlaced (c.dst.toNat / 2 ^ 24 * 2 ^ 24) run (A := c.dst.toNat % 2 ^ 24) (Nat.mod_mod _ _).symm
      rw [own] at placedHere
      rw [List.flatMap_cons, appendIff (by rw [traceLength _ run, placedLength]), right, List.forall_mem_cons, placedHere]
      have empty : c.image = [] → c.dst.toNat % 2 ^ 24 + lastStart c.image.length < 2 ^ 24 := by
        rintro none
        rw [none]
        exact Nat.mod_lt _ (by decide)
      rw [or_iff_right_of_imp empty]

theorem streamShort (stream : List Command) : stream.length ≤ (stream.flatMap Command.bytes).length := by
  induction stream with
  | nil => exact Nat.zero_le _
  | cons c rest tail =>
    rw [List.flatMap_cons, List.length_append, bytesLength, List.length_cons]
    omega

theorem copiesImages (images : List CpCmd) : ∃ out,
    (∀ fuel, (∀ c ∈ images, c.image.length < fuel) → addCpyCmd fuel images = some out) ∧
      (Reproduces images out ↔ ∀ c ∈ images, c.Fits) := by
  obtain ⟨stream, streams⟩ := streamExists images
  obtain ⟨trace, executes, right⟩ := streamExecutes streams
  have parsed : parse (stream.flatMap Command.bytes).length (stream.flatMap Command.bytes) = some stream :=
    parseBytes (streamSized streams) (streamShort stream)
  refine ⟨stream.flatMap Command.bytes, fun fuel enough => streamWritten streams enough, ?_⟩
  have both : (∀ c ∈ images, c.Fits) ↔ (∀ c ∈ stream, c.cont = true) ∧
      trace = images.flatMap fun c => placed c.dst.toNat c.image := by
    rw [streamContinues streams, right, ← forall₂_and]
    rfl
  rw [both]
  constructor
  · rintro ⟨commands, again, continued, executed⟩
    obtain rfl := Option.some.inj (parsed.symm.trans again)
    exact ⟨continued, Option.some.inj ((executes 0).symm.trans (executed 0))⟩
  · rintro ⟨continued, same⟩
    exact ⟨stream, parsed, continued, fun altcbar => same ▸ executes altcbar⟩

theorem copiesImagesExample : ∃ out, addCpyCmd 65 [⟨0x12345678#32, List.replicate 64 7, by decide⟩] = some out ∧
    Reproduces [⟨0x12345678#32, List.replicate 64 7, by decide⟩] out := by
  obtain ⟨out, written, right⟩ := copiesImages [⟨0x12345678#32, List.replicate 64 7, by decide⟩]
  exact ⟨out, written 65 (by decide), right.mpr (by decide)⟩

def oddImage : CpCmd := ⟨0x10000000#32, [0x01, 0x02, 0x03], by decide⟩

def crossingImage : CpCmd := ⟨0x10ffffc0#32, List.replicate 128 1, by simp⟩

theorem imagesMisplaced : (¬∃ out, addCpyCmd 4 [oddImage] = some out ∧ Reproduces [oddImage] out) ∧
    ¬∃ out, addCpyCmd 129 [crossingImage] = some out ∧ Reproduces [crossingImage] out := by
  constructor
  · rintro ⟨out, written, commands, parsed, continued, _⟩
    have check : ((addCpyCmd 4 [oddImage]).bind fun out => parse out.length out).map (·.all Command.cont) = some false := by
      decide
    rw [written, Option.bind_some, parsed, Option.map_some, Option.some.injEq] at check
    exact absurd (List.all_eq_true.mpr continued) (by rw [check]; decide)
  · rintro ⟨out, written, commands, parsed, _, executed⟩
    have check : ((addCpyCmd 129 [crossingImage]).bind fun out => parse out.length out).bind (execute 0) ≠
        some ([crossingImage].flatMap fun c => placed c.dst.toNat c.image) := by
      decide +kernel
    rw [written, Option.bind_some, parsed, Option.bind_some] at check
    exact check (executed 0)

end Flexbuild.PbiCopy
