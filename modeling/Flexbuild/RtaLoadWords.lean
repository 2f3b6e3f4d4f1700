import Flexbuild.BitFields
import Flexbuild.RtaFraming

/-! The commands of which the walk knows the length. Here are the loads, the stores and the keys:
what a walk sees of their command words. -/
namespace Flexbuild.Rta
open BitFields

variable {era : Era} {ps : Bool} {opcode length flags field mask flag base val : Word}

def inlineFits (flags length : Word) : Prop := flags &&& Flag.copyMask ≠ 0 ∨ 1 ≤ length ∧ length ≤ 8

instance (flags length : Word) : Decidable (inlineFits flags length) := inferInstanceAs (Decidable (_ ∨ _))

def mathFields : Word := bit 28 ||| bit 30 ||| Math.src0Mask ||| Math.src1Mask

def lowJobBuffer (src : BitVec 64) : Prop := jobBuffer ((src.setWidth 32).setWidth 64)

instance (src : BitVec 64) : Decidable (lowJobBuffer src) := inferInstanceAs (Decidable (jobBuffer _))

namespace Command

def Plain : Command → Prop
  | store src offset _ length flags =>
    if named src Reg.descbuf ∨ jobBuffer src then
      length ≤ 1023 ∧ offset ≤ 1023 ∧ (flags &&& Flag.immed ≠ 0 → ¬named src Reg.descbuf)
    else length ≤ 255 ∧ offset ≤ 255
  | math _ _ _ _ _ options => options &&& mathFields = 0
  | _ => True

def Told : Command → Prop
  | jobHeader _ _ _ flags _ => flags &&& Flag.dnr ≠ 0 → flags &&& Flag.ext ≠ 0
  | load _ dst _ length flags => named dst Reg.dctrl ∨ flags &&& Flag.immed = 0 ∨ inlineFits flags length
  | store src _ _ length flags =>
    if flags &&& Flag.immed ≠ 0 then ¬jobBuffer src ∧ inlineFits flags length
    else flags &&& Flag.seq ≠ 0 ∨ (lowJobBuffer src → jobBuffer src)
  | key _ encryptFlags _ length flags =>
    flags &&& Flag.seq = 0 ∧ (flags &&& Flag.immed = 0 ∨ flags &&& Flag.copyMask ≠ 0 ∨
      encryptFlags &&& Flag.enc = 0 ∧ 1 ≤ length &&& Key.lengthMask ∧ length &&& Key.lengthMask ≤ 8)
  | fifoLoad _ _ length flags => flags &&& Flag.immed = 0 ∨ inlineFits flags length
  | fifoStore src encryptFlags dst _ flags =>
    flags &&& Flag.seq ≠ 0 ∨ (dst = 0 ↔ encryptFlags &&& Flag.ekt = 0 ∧
      (src = Reg.rngofifo ∨ src = Reg.rng ∧ encryptFlags &&& Flag.tk ≠ 0))
  | _ => True

instance : (command : Command) → Decidable command.Plain
  | store src offset _ length flags => inferInstanceAs (Decidable (if named src Reg.descbuf ∨ jobBuffer src then
      length ≤ 1023 ∧ offset ≤ 1023 ∧ (flags &&& Flag.immed ≠ 0 → ¬named src Reg.descbuf)
    else length ≤ 255 ∧ offset ≤ 255))
  | math .. => inferInstanceAs (Decidable (_ = _))
  | shrHeader .. | jobHeader .. | load .. | key .. | fifoLoad .. | fifoStore .. | jump .. | seqInPtr .. | seqOutPtr .. =>
    inferInstanceAs (Decidable True)

instance : (command : Command) → Decidable command.Told
  | jobHeader .. => inferInstanceAs (Decidable (_ → _))
  | load .. | fifoLoad .. => inferInstanceAs (Decidable (_ ∨ _))
  | store src _ _ length flags => inferInstanceAs (Decidable (if flags &&& Flag.immed ≠ 0 then
      ¬jobBuffer src ∧ inlineFits flags length else flags &&& Flag.seq ≠ 0 ∨ (lowJobBuffer src → jobBuffer src)))
  | key .. => inferInstanceAs (Decidable (_ ∧ _))
  | fifoStore .. => inferInstanceAs (Decidable (_ ∨ _))
  | shrHeader .. | math .. | jump .. | seqInPtr .. | seqOutPtr .. => inferInstanceAs (Decidable True)

end Command

theorem everyEntry {α : Type} {table : List α} {good : α → Prop} [DecidablePred good]
    (checked : table.all (fun entry => decide (good entry)) = true) : ∀ entry ∈ table, good entry := by
  simpa only [List.all_eq_true, decide_eq_true_eq] using checked

theorem orIfSeen (apart : field &&& mask = 0) : orIf flags flag field base &&& mask = base &&& mask := by
  unfold orIf
  split
  · exact seenLeft apart
  · rfl

theorem orIfTells (clear : base &&& field = 0) (some : field ≠ 0) :
    orIf flags flag field base &&& field ≠ 0 ↔ flags &&& flag ≠ 0 := by
  unfold orIf
  split
  · next set => exact ⟨fun _ => set, fun _ => by rwa [ownBits clear]⟩
  · next unset => exact ⟨fun tells => absurd clear tells, fun set => absurd set unset⟩

theorem passed {refuses : Prop} [Decidable refuses] {rest : Except Unit Word}
    (encoded : (if refuses then .error () else rest) = .ok opcode) : ¬refuses ∧ rest = .ok opcode := by
  split at encoded
  · cases encoded
  · next allowed => exact ⟨allowed, encoded⟩

theorem bound {α : Type} {first : Except Unit α} {rest : α → Except Unit Word} (encoded : first >>= rest = .ok opcode) :
    ∃ a, first = .ok a ∧ rest a = .ok opcode := by
  cases first with
  | error => cases encoded
  | ok a => exact ⟨a, rfl, encoded⟩

variable {table : List (Word × Word)}

theorem mapOpcodeMem {name : Word} (mapped : rtaMapOpcode name table = .ok val) : (name, val) ∈ table := by
  unfold rtaMapOpcode at mapped
  split at mapped
  · next entry found =>
    cases mapped
    have same : entry.1 = name := by simpa using List.find?_some found
    rw [← same]
    exact List.mem_of_find?_eq_some found
  · cases mapped

theorem mapOpcodeTake {name : Word} {n : Nat}
    (mapped : rtaMapOpcode name (table.take n) = .ok val) : (name, val) ∈ table :=
  List.mem_of_mem_take (mapOpcodeMem mapped)

theorem mapFlagsSeen (apart : ∀ entry ∈ table, entry.2 &&& mask = 0) (base : Word) :
    rtaMapFlags flags table base &&& mask = base &&& mask := by
  unfold rtaMapFlags
  induction table generalizing base with
  | nil => rfl
  | cons entry rest same =>
    rw [List.foldl_cons, same (fun other member => apart other (List.mem_cons_of_mem _ member))]
    exact orIfSeen (apart entry List.mem_cons_self)

theorem pointerPositive (ps : Bool) : 0 < pointerWords ps := by cases ps <;> decide

theorem inlineTold (small : length.toNat < 2 ^ 31) :
    immediateWords length = inlineWords flags length ↔ inlineFits flags length := by
  unfold immediateWords inlineWords inlineFits
  by_cases plain : flags &&& Flag.copyMask = 0
  · rw [if_pos plain]
    unfold pointerWords
    have one : 1 ≤ length ↔ 1 ≤ length.toNat := BitVec.le_def
    have eight : length ≤ 8 ↔ length.toNat ≤ 8 := BitVec.le_def
    have four : 4 < length ↔ 4 < length.toNat := BitVec.lt_def
    rw [one, eight]
    simp only [plain, ne_eq, not_true_eq_false, false_or, decide_eq_true_eq, four]
    split <;> omega
  · rw [if_neg plain, BitVec.toNat_udiv, BitVec.toNat_add]
    have sum : (length.toNat + (3 : Word).toNat) % 2 ^ 32 = length.toNat + 3 := Nat.mod_eq_of_lt (by simp; omega)
    rw [sum]
    exact ⟨fun _ => Or.inl plain, fun _ => rfl⟩

theorem followKey (command : opcode &&& cmdMask = cmdKey) :
    followWords ps opcode = if opcode &&& Key.imm ≠ 0 then immediateWords (keyTold opcode) else pointerWords ps := by
  rw [followWords, command]
  rfl

theorem followSeqKey (command : opcode &&& cmdMask = cmdSeqKey) : followWords ps opcode = 0 := by
  rw [followWords, command]
  rfl

theorem followLoad (command : opcode &&& cmdMask = cmdLoad) :
    followWords ps opcode = if loadsControl opcode then 0
      else if opcode &&& Ldst.imm ≠ 0 then immediateWords (opcode &&& Ldst.lenMask) else pointerWords ps := by
  rw [followWords, command]
  rfl

theorem followSeqLoad (command : opcode &&& cmdMask = cmdSeqLoad) :
    followWords ps opcode = if loadsControl opcode then 0
      else if opcode &&& Ldst.imm ≠ 0 then immediateWords (opcode &&& Ldst.lenMask) else 0 := by
  rw [followWords, command]
  rfl

theorem loadSeen {base len off : Word} (lenInside : Inside len 0xff) (offInside : Inside off 0xff00)
    (apart : (0xffff : Word) &&& mask = 0) : (base ||| len ||| off) &&& mask = base &&& mask := by
  have low : (0xff : Word) &&& mask = 0 := insideApart (by decide : (0xff : Word) &&& 0xffff = 0xff) apart
  have high : (0xff00 : Word) &&& mask = 0 := insideApart (by decide : (0xff00 : Word) &&& 0xffff = 0xff00) apart
  rw [seenLeft (insideApart offInside high), seenLeft (insideApart lenInside low)]

theorem loadLength {base len off : Word} (lenInside : Inside len 0xff) (offInside : Inside off 0xff00)
    (clear : base &&& Ldst.lenMask = 0) : (base ||| len ||| off) &&& Ldst.lenMask = len := by
  rw [seenLeft (insideApart offInside (by decide)), seenRight clear]
  exact lenInside

theorem namedSame {operand : BitVec 64} {reg other : Word} (name : named operand reg) : named operand other ↔ reg = other := by
  constructor
  · intro same
    have low := congrArg (BitVec.setWidth 32) (name.symm.trans same)
    simpa using low
  · rintro rfl
    exact name

theorem loadEntries : ∀ entry ∈ loadDst, entry.dstOpcode &&& (cmdMask ||| 0xffff) = 0 ∧
    (entry.dstOpcode &&& Ldst.place = Ldst.deco ||| Ldst.srcdst 0x06 ↔ entry.dst = Reg.dctrl) ∧
    (entry.dst ≠ Reg.dctrl → entry.dstOpcode &&& Ldst.imm = 0) ∧ (entry.dst = Reg.descbuf → entry.immSrc = .no) :=
  everyEntry (by decide)

def loadBase (flags : Word) : Word :=
  orIf flags Flag.immed Ldst.imm (orIf flags Flag.vlf Ldst.vlf (orIf flags Flag.sgf Ldst.sgf
    (if flags &&& Flag.seq ≠ 0 then cmdSeqLoad else cmdLoad)))

theorem loadBaseSeen (apart : (Ldst.imm ||| Ldst.vlf ||| Ldst.sgf) &&& mask = 0) :
    loadBase flags &&& mask = (if flags &&& Flag.seq ≠ 0 then cmdSeqLoad else cmdLoad) &&& mask := by
  have imm : Ldst.imm &&& mask = 0 := insideApart (by decide : Ldst.imm &&& (Ldst.imm ||| Ldst.vlf ||| Ldst.sgf) = _) apart
  have vlf : Ldst.vlf &&& mask = 0 := insideApart (by decide : Ldst.vlf &&& (Ldst.imm ||| Ldst.vlf ||| Ldst.sgf) = _) apart
  have sgf : Ldst.sgf &&& mask = 0 := insideApart (by decide : Ldst.sgf &&& (Ldst.imm ||| Ldst.vlf ||| Ldst.sgf) = _) apart
  rw [loadBase, orIfSeen imm, orIfSeen vlf, orIfSeen sgf]

def loadOffset (dst : BitVec 64) (offset : Word) : Word :=
  if named dst Reg.descbuf then offset >>> 2 <<< 8 else offset <<< 8

theorem loadParts {dst : BitVec 64} {offset : Word} (encoded : loadOpcode era dst offset length flags = .ok opcode) :
    Inside length 0xff ∧ ∃ entry ∈ loadDst, ∃ len off, named dst entry.dst ∧
      opcode = loadBase flags ||| entry.dstOpcode ||| len ||| off ∧ Inside len 0xff ∧ Inside off 0xff00 ∧
      off = loadOffset dst offset ∧ (flags &&& Flag.immed ≠ 0 → len = length) := by
  unfold loadOpcode at encoded
  unfold loadOffset
  split at encoded
  · cases encoded
  · next small =>
    obtain ⟨shortLength, shortOffset⟩ := not_or.1 small
    have lenInside : Inside length 0xff := insideOf (not_not.1 shortLength)
    have offInside : Inside offset 0xff := insideOf (not_not.1 shortOffset)
    split at encoded
    · cases encoded
    · next entry found =>
      have member : entry ∈ loadDst := List.mem_of_mem_take (List.mem_of_find?_eq_some found)
      have name : named dst entry.dst := by simpa using List.find?_some found
      split at encoded
      · cases encoded
      · next allowed =>
        split at encoded
        · cases encoded
        · split at encoded
          · cases encoded
            refine ⟨lenInside, entry, member, ?_⟩
            by_cases words : named dst Reg.descbuf
            · rw [if_pos words, if_pos words]
              have refused := (loadEntries entry member).2.2.2 ((namedSame name).1 words)
              have narrow : Inside ((0xff : Word) >>> 2) 0xff := by decide
              exact ⟨length >>> 2, offset >>> 2 <<< 8, name, rfl, insideWider (insideShiftRight lenInside 2) narrow,
                insideShift (insideWider (insideShiftRight offInside 2) narrow) 8, rfl, fun immed => absurd ⟨immed, refused⟩ allowed⟩
            · rw [if_neg words, if_neg words]
              exact ⟨length, offset <<< 8, name, rfl, lenInside, insideShift offInside 8, rfl, fun _ => rfl⟩
          · cases encoded

variable {src dst : BitVec 64}

theorem loadWords {offset : Word} (encoded : loadOpcode era dst offset length flags = .ok opcode) :
    followWords ps opcode = (Command.load src dst offset length flags).follow ps opcode ↔
      (Command.load src dst offset length flags).Told := by
  obtain ⟨short, entry, member, len, off, name, rfl, lenInside, offInside, -, same⟩ := loadParts encoded
  obtain ⟨clear, control, plain, -⟩ := loadEntries entry member
  have small : length.toNat < 2 ^ 31 := by
    rw [← short]
    exact Nat.lt_of_le_of_lt Nat.and_le_right (by decide)
  generalize word : loadBase flags ||| entry.dstOpcode ||| len ||| off = opcode
  have seen {mask : Word} (apart : (0xffff : Word) &&& mask = 0) :
      opcode &&& mask = (loadBase flags ||| entry.dstOpcode) &&& mask := by
    rw [← word]
    exact loadSeen lenInside offInside apart
  have command : opcode &&& cmdMask = if flags &&& Flag.seq ≠ 0 then cmdSeqLoad else cmdLoad := by
    rw [seen (by decide), seenLeft (clearWithin clear (by decide)), loadBaseSeen (by decide)]
    split <;> decide
  have baseClear {mask : Word} (imm : (Ldst.imm ||| Ldst.vlf ||| Ldst.sgf) &&& mask = 0)
      (seq : cmdSeqLoad &&& mask = 0) (load : cmdLoad &&& mask = 0) : loadBase flags &&& mask = 0 := by
    rw [loadBaseSeen imm]
    split
    · exact seq
    · exact load
  have place : loadsControl opcode ↔ named dst Reg.dctrl := by
    rw [loadsControl, seen (by decide), seenRight (baseClear (by decide) (by decide) (by decide)), control, namedSame name]
  have told : opcode &&& Ldst.lenMask = len := by
    rw [← word]
    refine loadLength lenInside offInside ?_
    rw [seenLeft (clearWithin clear (by decide))]
    exact baseClear (by decide) (by decide) (by decide)
  have imm (other : ¬named dst Reg.dctrl) : opcode &&& Ldst.imm ≠ 0 ↔ flags &&& Flag.immed ≠ 0 := by
    rw [seen (by decide), seenLeft (plain (mt (namedSame name).2 other))]
    refine orIfTells ?_ (by decide)
    rw [orIfSeen (by decide), orIfSeen (by decide)]
    split <;> decide
  by_cases isControl : named dst Reg.dctrl
  · have none : followWords ps opcode = 0 := by
      by_cases seq : flags &&& Flag.seq ≠ 0
      · rw [followSeqLoad (command.trans (if_pos seq)), if_pos (place.2 isControl)]
      · rw [followLoad (command.trans (if_neg seq)), if_pos (place.2 isControl)]
    rw [none, Command.follow, if_pos isControl]
    exact ⟨fun _ => Or.inl isControl, fun _ => rfl⟩
  · have decided : followWords ps opcode = if flags &&& Flag.immed ≠ 0 then immediateWords len
        else if flags &&& Flag.seq = 0 then pointerWords ps else 0 := by
      by_cases seq : flags &&& Flag.seq = 0
      · rw [followLoad (command.trans (if_neg (not_not_intro seq))), if_neg (mt place.1 isControl), told, if_pos seq]
        exact if_congr (imm isControl) rfl rfl
      · rw [followSeqLoad (command.trans (if_pos seq)), if_neg (mt place.1 isControl), told, if_neg seq]
        exact if_congr (imm isControl) rfl rfl
    rw [decided, Command.follow, if_neg isControl, Command.Told]
    by_cases immed : flags &&& Flag.immed = 0
    · rw [if_neg (not_not_intro immed), if_neg (not_not_intro immed)]
      exact ⟨fun _ => Or.inr (Or.inl immed), fun _ => rfl⟩
    · rw [if_pos immed, if_pos immed, same immed, inlineTold small]
      exact ⟨fun fits => Or.inr (Or.inr fits), fun told => (told.resolve_left isControl).resolve_left immed⟩

theorem keyDestClear {keyDst dest : Word} (found : keyDest keyDst = .ok dest) :
    dest &&& (cmdMask ||| Key.imm ||| Key.enc ||| Key.ekt ||| Key.lengthMask) = 0 := by
  unfold keyDest at found
  repeat' split at found
  all_goals cases found
  all_goals decide

def keyBase (dest encryptFlags length flags : Word) : Word :=
  let opcode := (if flags &&& Flag.seq ≠ 0 then cmdSeqKey else cmdKey) ||| dest ||| length &&& Key.lengthMask
  orIf encryptFlags Flag.pts Key.pts (orIf encryptFlags Flag.nwb Key.nwb
    (if encryptFlags &&& Flag.enc ≠ 0 then
      orIf encryptFlags Flag.tk Key.tk (orIf encryptFlags Flag.ekt Key.ekt (opcode ||| Key.enc)) else opcode))

def keyWord (dest encryptFlags length flags : Word) : Word :=
  let opcode := keyBase dest encryptFlags length flags
  if flags &&& Flag.seq = 0 then orIf flags Flag.sgf Key.sgf (orIf flags Flag.immed Key.imm opcode)
  else orIf flags Flag.vlf Key.vlf (orIf flags Flag.aidf Key.aidf opcode)

theorem keyParts {keyDst encryptFlags : Word} (encoded : keyOpcode era keyDst encryptFlags length flags = .ok opcode) :
    (flags &&& Flag.seq ≠ 0 → flags &&& Flag.immed = 0) ∧
      ∃ dest, keyDest keyDst = .ok dest ∧ opcode = keyWord dest encryptFlags length flags := by
  unfold keyOpcode at encoded
  obtain ⟨-, encoded⟩ := passed encoded
  obtain ⟨allowed, encoded⟩ := passed encoded
  refine ⟨fun seq => not_not.1 fun immed => allowed ⟨seq, Or.inl immed⟩, ?_⟩
  iterate 5 obtain ⟨-, encoded⟩ := passed encoded
  obtain ⟨dest, found, encoded⟩ := bound encoded
  cases encoded
  exact ⟨dest, found, rfl⟩

def keyOther : Word := Key.pts ||| Key.nwb ||| Key.tk ||| Key.sgf

def keyStart (dest length flags : Word) : Word :=
  (if flags &&& Flag.seq ≠ 0 then cmdSeqKey else cmdKey) ||| dest ||| length &&& Key.lengthMask

def keyEncrypted (dest encryptFlags length flags : Word) : Word :=
  if encryptFlags &&& Flag.enc ≠ 0 then orIf encryptFlags Flag.ekt Key.ekt (keyStart dest length flags ||| Key.enc)
  else keyStart dest length flags

variable {dest encryptFlags : Word}

theorem keyBaseSeen (apart : keyOther &&& mask = 0) :
    keyBase dest encryptFlags length flags &&& mask = keyEncrypted dest encryptFlags length flags &&& mask := by
  have pts : Key.pts &&& mask = 0 := insideApart (by decide : Inside Key.pts keyOther) apart
  have nwb : Key.nwb &&& mask = 0 := insideApart (by decide : Inside Key.nwb keyOther) apart
  have tk : Key.tk &&& mask = 0 := insideApart (by decide : Inside Key.tk keyOther) apart
  rw [keyBase, orIfSeen pts, orIfSeen nwb, keyEncrypted]
  split
  · exact orIfSeen tk
  · rfl

theorem keyWordSeen (apart : keyOther &&& mask = 0) (imm : Key.imm &&& mask = 0) :
    keyWord dest encryptFlags length flags &&& mask = keyEncrypted dest encryptFlags length flags &&& mask := by
  have sgf : Key.sgf &&& mask = 0 := insideApart (by decide : Inside Key.sgf keyOther) apart
  rw [← keyBaseSeen apart, keyWord]
  split
  · exact (orIfSeen sgf).trans (orIfSeen imm)
  · exact (orIfSeen sgf).trans (orIfSeen imm)

theorem keyEncryptedSeen (enc : Key.enc &&& mask = 0) (ekt : Key.ekt &&& mask = 0) :
    keyEncrypted dest encryptFlags length flags &&& mask = keyStart dest length flags &&& mask := by
  unfold keyEncrypted
  split
  · rw [orIfSeen ekt, seenLeft enc]
  · rfl

theorem keyStartClear (clear : dest &&& mask = 0) (apart : Key.lengthMask &&& mask = 0)
    (seq : cmdSeqKey &&& mask = 0) : keyStart dest length flags &&& mask = 0 := by
  rw [keyStart, seenLeft (insideApart (insideMask length Key.lengthMask) apart), seenLeft clear]
  split
  · exact seq
  · exact BitVec.zero_and

theorem keyCommand (clear : dest &&& cmdMask = 0) :
    keyWord dest encryptFlags length flags &&& cmdMask = if flags &&& Flag.seq ≠ 0 then cmdSeqKey else cmdKey := by
  rw [keyWordSeen (by decide) (by decide), keyEncryptedSeen (by decide) (by decide), keyStart,
    seenLeft (insideApart (insideMask length Key.lengthMask) (by decide)), seenLeft clear]
  split <;> decide

theorem keyLength (clear : dest &&& Key.lengthMask = 0) :
    keyWord dest encryptFlags length flags &&& Key.lengthMask = length &&& Key.lengthMask := by
  rw [keyWordSeen (by decide) (by decide), keyEncryptedSeen (by decide) (by decide), keyStart, seenRight]
  · exact insideMask length Key.lengthMask
  · rw [seenLeft clear]
    split <;> decide

theorem keyImm (clear : dest &&& Key.imm = 0) (plain : flags &&& Flag.seq = 0) :
    keyWord dest encryptFlags length flags &&& Key.imm ≠ 0 ↔ flags &&& Flag.immed ≠ 0 := by
  rw [keyWord, if_pos plain, orIfSeen (by decide)]
  refine orIfTells ?_ (by decide)
  rw [keyBaseSeen (by decide), keyEncryptedSeen (by decide) (by decide)]
  exact keyStartClear clear (by decide) (by decide)

theorem keyEnc (clear : dest &&& Key.enc = 0) :
    keyWord dest encryptFlags length flags &&& Key.enc ≠ 0 ↔ encryptFlags &&& Flag.enc ≠ 0 := by
  have start : keyStart dest length flags &&& Key.enc = 0 := keyStartClear clear (by decide) (by decide)
  rw [keyWordSeen (by decide) (by decide), keyEncrypted]
  split
  · next set =>
    rw [orIfSeen (by decide), ownBits start]
    exact ⟨fun _ => set, fun _ => by decide⟩
  · next unset => exact ⟨fun tells => absurd start tells, fun set => absurd set unset⟩

theorem keyEkt (clear : dest &&& Key.ekt = 0) (enc : encryptFlags &&& Flag.enc ≠ 0) :
    keyWord dest encryptFlags length flags &&& Key.ekt ≠ 0 ↔ encryptFlags &&& Flag.ekt ≠ 0 := by
  rw [keyWordSeen (by decide) (by decide), keyEncrypted, if_pos enc]
  refine orIfTells ?_ (by decide)
  rw [seenLeft (by decide)]
  exact keyStartClear clear (by decide) (by decide)

theorem keyPadded (enc : dest &&& Key.enc = 0) (ekt : dest &&& Key.ekt = 0) (len : dest &&& Key.lengthMask = 0) :
    keyTold (keyWord dest encryptFlags length flags) = keyStored encryptFlags length := by
  rw [keyTold, keyStored, keyLength len]
  by_cases encrypted : encryptFlags &&& Flag.enc ≠ 0
  · rw [if_pos ((keyEnc enc).2 encrypted), if_pos encrypted]
    exact if_congr (keyEkt ekt encrypted) rfl rfl
  · rw [if_neg (mt (keyEnc enc).1 encrypted), if_neg encrypted]

theorem alignLe (x a : Word) : (align x a).toNat ≤ x.toNat + (a - 1).toNat := by
  rw [align, BitVec.toNat_and]
  refine Nat.and_le_left.trans ?_
  rw [BitVec.toNat_add]
  exact Nat.mod_le _ _

theorem alignSixteen (x : Word) : (align x 16).toNat % 16 = 0 := by
  have cut : align x 16 &&& 15 = 0 := by
    rw [align, BitVec.and_assoc, show ~~~((16 : Word) - 1) &&& 15 = 0#32 by decide]
    exact BitVec.and_zero
  have low := congrArg BitVec.toNat cut
  rw [BitVec.toNat_and] at low
  rw [← Nat.and_two_pow_sub_one_eq_mod _ 4]
  exact low

theorem maskedSmall (length : Word) : (length &&& Key.lengthMask).toNat ≤ 0x3ff := by
  rw [BitVec.toNat_and]
  exact Nat.and_le_right

theorem keyStoredSmall (encryptFlags length : Word) : (keyStored encryptFlags length).toNat < 2 ^ 31 := by
  have masked := maskedSmall length
  have eight : (align (length &&& Key.lengthMask) 8).toNat ≤ _ + 7 := alignLe _ 8
  have sixteen : (align (length &&& Key.lengthMask) 16).toNat ≤ _ + 15 := alignLe _ 16
  unfold keyStored
  split
  · split
    · rw [BitVec.toNat_add]
      refine Nat.lt_of_le_of_lt (Nat.mod_le _ _) ?_
      change _ + 12 < _
      omega
    · omega
  · omega

theorem keyFits (encryptFlags length flags : Word) : inlineFits flags (keyStored encryptFlags length) ↔
    flags &&& Flag.copyMask ≠ 0 ∨
      encryptFlags &&& Flag.enc = 0 ∧ 1 ≤ length &&& Key.lengthMask ∧ length &&& Key.lengthMask ≤ 8 := by
  unfold inlineFits keyStored
  by_cases enc : encryptFlags &&& Flag.enc = 0
  · rw [if_neg (not_not_intro enc)]
    simp only [enc, true_and]
  · rw [if_pos enc]
    have wide : ¬(1 ≤ (if encryptFlags &&& Flag.ekt ≠ 0 then align (length &&& Key.lengthMask) 8 + 12
        else align (length &&& Key.lengthMask) 16) ∧ (if encryptFlags &&& Flag.ekt ≠ 0 then
          align (length &&& Key.lengthMask) 8 + 12 else align (length &&& Key.lengthMask) 16) ≤ 8) := by
      rintro ⟨least, most⟩
      have masked := maskedSmall length
      have eight : (align (length &&& Key.lengthMask) 8).toNat ≤ _ + 7 := alignLe _ 8
      rw [BitVec.le_def] at least most
      split at most
      · rw [BitVec.toNat_add, Nat.mod_eq_of_lt (by change _ + 12 < _; omega)] at most
        change _ + 12 ≤ 8 at most
        omega
      · next plain =>
        rw [if_neg plain] at least
        have multiple := alignSixteen (length &&& Key.lengthMask)
        have least : 1 ≤ (align (length &&& Key.lengthMask) 16).toNat := least
        have most : (align (length &&& Key.lengthMask) 16).toNat ≤ 8 := most
        omega
    simp only [enc, false_and, or_false, wide]

variable {src : BitVec 64}

theorem keyWords {keyDst encryptFlags : Word}
    (encoded : keyOpcode era keyDst encryptFlags length flags = .ok opcode) :
    followWords ps opcode = (Command.key keyDst encryptFlags src length flags).follow ps opcode ↔
      (Command.key keyDst encryptFlags src length flags).Told := by
  obtain ⟨sequence, dest, found, rfl⟩ := keyParts encoded
  have clear {mask : Word} (within : Inside mask (cmdMask ||| Key.imm ||| Key.enc ||| Key.ekt ||| Key.lengthMask)) :
      dest &&& mask = 0 := clearWithin (keyDestClear found) within
  have command : keyWord dest encryptFlags length flags &&& cmdMask = _ := keyCommand (clear (by decide))
  rw [Command.follow, Command.Told]
  by_cases seq : flags &&& Flag.seq = 0
  · rw [followKey (command.trans (if_neg (not_not_intro seq))), keyPadded (clear (by decide)) (clear (by decide))
      (clear (by decide))]
    by_cases immed : flags &&& Flag.immed = 0
    · rw [if_neg (mt (keyImm (clear (by decide)) seq).1 (not_not_intro immed)), if_neg (not_not_intro immed)]
      exact ⟨fun _ => ⟨seq, Or.inl immed⟩, fun _ => rfl⟩
    · rw [if_pos ((keyImm (clear (by decide)) seq).2 immed), if_pos immed, inlineTold (keyStoredSmall _ _), keyFits]
      exact ⟨fun fits => ⟨seq, Or.inr fits⟩, fun told => told.2.resolve_left immed⟩
  · rw [followSeqKey (command.trans (if_pos seq)), if_neg (not_not_intro (sequence seq))]
    have positive := pointerPositive ps
    exact ⟨fun told => by omega, fun told => absurd told.1 seq⟩

theorem followStore (command : opcode &&& cmdMask = cmdStore) :
    followWords ps opcode = (if storesDescriptor opcode then 0 else pointerWords ps) +
      if opcode &&& Ldst.imm ≠ 0 then immediateWords (opcode &&& Ldst.lenMask) else 0 := by
  rw [followWords, command]
  rfl

theorem followSeqStore (command : opcode &&& cmdMask = cmdSeqStore) :
    followWords ps opcode = if opcode &&& Ldst.imm ≠ 0 then immediateWords (opcode &&& Ldst.lenMask) else 0 := by
  rw [followWords, command]
  rfl

theorem storeEntries : ∀ entry ∈ storeSrcTable, entry.2 &&& (cmdMask ||| Ldst.imm ||| 0xffff) = 0 ∧
    (entry.2 &&& Ldst.place ∈ descriptorPlaces ↔ jobBuffer (entry.1.setWidth 64)) :=
  everyEntry (by decide)

def storeBase (flags : Word) : Word :=
  orIf flags (Flag.sgf ||| Flag.vlf) Ldst.vlf (orIf flags Flag.immed Ldst.imm
    (if flags &&& Flag.seq ≠ 0 then cmdSeqStore else cmdStore))

theorem storeBaseSeen (vlf : Ldst.vlf &&& mask = 0) (imm : Ldst.imm &&& mask = 0) :
    storeBase flags &&& mask = (if flags &&& Flag.seq ≠ 0 then cmdSeqStore else cmdStore) &&& mask := by
  rw [storeBase, orIfSeen vlf, orIfSeen imm]

theorem insideLow {x : Word} (small : x.toNat ≤ 255) : Inside x 0xff := insideBelow 8 (Nat.lt_succ_of_le small) (by decide)

def storeOffset (src : BitVec 64) (offset : BitVec 16) : Word :=
  if named src Reg.descbuf ∨ jobBuffer src then (offset >>> 2).setWidth 32 <<< 8 else offset.setWidth 32 <<< 8

variable {offset : BitVec 16}

theorem storeFieldsInside
    (plain : (Command.store src offset dst length flags).Plain) : ∃ len off, storeFields src offset length = len ||| off ∧
      Inside len 0xff ∧ Inside off 0xff00 ∧ off = storeOffset src offset ∧
      (flags &&& Flag.immed ≠ 0 → ¬jobBuffer src → len = length ∧ length ≤ 255) := by
  have shifted {o : BitVec 16} (small : o.toNat ≤ 255) : Inside (o.setWidth 32 <<< 8) 0xff00 := by
    have low : Inside (o.setWidth 32) 0xff := insideLow (by rw [BitVec.toNat_setWidth]; exact (Nat.mod_le _ _).trans small)
    exact insideShift low 8
  unfold storeFields storeOffset
  rw [Command.Plain] at plain
  split at plain
  · next words =>
    obtain ⟨shortLength, shortOffset, other⟩ := plain
    have len : length.toNat ≤ 1023 := shortLength
    have off : offset.toNat ≤ 1023 := shortOffset
    rw [if_pos words, if_pos words]
    refine ⟨_, _, rfl, insideLow ?_, shifted ?_, rfl, fun immed outside => absurd words (not_or_intro (other immed) outside)⟩
    · rw [BitVec.toNat_ushiftRight, Nat.shiftRight_eq_div_pow]
      omega
    · rw [BitVec.toNat_ushiftRight, Nat.shiftRight_eq_div_pow]
      omega
  · next bytes =>
    rw [if_neg bytes, if_neg bytes]
    exact ⟨_, _, rfl, insideLow plain.1, shifted plain.2, rfl, fun _ _ => ⟨rfl, plain.1⟩⟩

theorem storeParts (encoded : storeOpcode era src offset length flags = .ok opcode) :
    (flags &&& Flag.seq ≠ 0 → ¬jobBuffer src) ∧ ∃ val, opcode = storeBase flags ||| val ||| storeFields src offset length ∧
      (flags &&& Flag.immed = 0 → (src.setWidth 32, val) ∈ storeSrcTable) ∧ (flags &&& Flag.immed ≠ 0 → val = 0) := by
  unfold storeOpcode at encoded
  obtain ⟨-, encoded⟩ := passed encoded
  obtain ⟨-, encoded⟩ := passed encoded
  obtain ⟨allowed, encoded⟩ := passed encoded
  obtain ⟨val, found, encoded⟩ := bound encoded
  cases encoded
  unfold storeSource at found
  refine ⟨fun seq buffer => allowed ⟨seq, buffer⟩, val, rfl, fun register => ?_, fun immed => ?_⟩
  · rw [if_pos register] at found
    exact mapOpcodeTake found
  · rw [if_neg immed] at found
    cases found
    rfl

theorem storeValClear (register : flags &&& Flag.immed = 0 → (src.setWidth 32, val) ∈ storeSrcTable)
    (immediate : flags &&& Flag.immed ≠ 0 → val = 0) (within : Inside mask (cmdMask ||| Ldst.imm ||| 0xffff)) :
    val &&& mask = 0 := by
  by_cases immed : flags &&& Flag.immed = 0
  · exact clearWithin (storeEntries _ (register immed)).1 within
  · rw [immediate immed]
    exact BitVec.zero_and

theorem lowJobBufferOf (buffer : jobBuffer src) : lowJobBuffer src := by
  unfold lowJobBuffer
  rcases buffer with name | name | name | name <;> rw [name] <;> decide

theorem storeWords (encoded : storeOpcode era src offset length flags = .ok opcode)
    (plain : (Command.store src offset dst length flags).Plain) :
    followWords ps opcode = (Command.store src offset dst length flags).follow ps opcode ↔
      (Command.store src offset dst length flags).Told := by
  obtain ⟨sequence, val, word, register, immediate⟩ := storeParts encoded
  obtain ⟨len, off, fields, lenInside, offInside, -, same⟩ := storeFieldsInside plain
  have valClear {mask : Word} (within : Inside mask (cmdMask ||| Ldst.imm ||| 0xffff)) : val &&& mask = 0 :=
    storeValClear register immediate within
  have seen {mask : Word} (apart : (0xffff : Word) &&& mask = 0) : opcode &&& mask = (storeBase flags ||| val) &&& mask := by
    rw [word, fields, ← BitVec.or_assoc]
    exact loadSeen lenInside offInside apart
  have command : opcode &&& cmdMask = if flags &&& Flag.seq ≠ 0 then cmdSeqStore else cmdStore := by
    rw [seen (by decide), seenLeft (valClear (by decide)), storeBaseSeen (by decide) (by decide)]
    split <;> decide
  have baseClear {mask : Word} (vlf : Ldst.vlf &&& mask = 0) (imm : Ldst.imm &&& mask = 0)
      (seq : cmdSeqStore &&& mask = 0) (store : cmdStore &&& mask = 0) : storeBase flags &&& mask = 0 := by
    rw [storeBaseSeen vlf imm]
    split
    · exact seq
    · exact store
  have told : opcode &&& Ldst.lenMask = len := by
    rw [word, fields, ← BitVec.or_assoc]
    refine loadLength lenInside offInside ?_
    rw [seenLeft (valClear (by decide))]
    exact baseClear (by decide) (by decide) (by decide) (by decide)
  have imm : opcode &&& Ldst.imm ≠ 0 ↔ flags &&& Flag.immed ≠ 0 := by
    rw [seen (by decide), seenLeft (valClear (by decide)), storeBase, orIfSeen (by decide)]
    refine orIfTells ?_ (by decide)
    split <;> decide
  have place : opcode &&& Ldst.place = val &&& Ldst.place := by
    rw [seen (by decide), seenRight (baseClear (by decide) (by decide) (by decide) (by decide))]
  have positive := pointerPositive ps
  rw [Command.follow, Command.Told]
  by_cases immed : flags &&& Flag.immed = 0
  · have descriptor : storesDescriptor opcode ↔ lowJobBuffer src := by
      rw [storesDescriptor, place]
      exact (storeEntries _ (register immed)).2
    rw [if_neg (not_not_intro immed), if_neg (not_not_intro immed)]
    by_cases seq : flags &&& Flag.seq = 0
    · rw [followStore (command.trans (if_neg (not_not_intro seq))), if_neg (mt imm.1 (not_not_intro immed)), if_pos seq,
        Nat.add_zero, Nat.add_zero, if_congr descriptor rfl rfl]
      by_cases buffer : jobBuffer src
      · rw [if_pos (lowJobBufferOf buffer), if_pos buffer]
        exact ⟨fun _ => Or.inr fun _ => buffer, fun _ => rfl⟩
      · rw [if_neg buffer]
        constructor
        · intro same
          refine Or.inr fun low => ?_
          rw [if_pos low] at same
          omega
        · intro told
          rw [if_neg (mt (told.resolve_left (not_not_intro seq)) buffer)]
    · rw [followSeqStore (command.trans (if_pos seq)), if_neg (mt imm.1 (not_not_intro immed)), if_neg (sequence seq),
        if_neg seq]
      exact ⟨fun _ => Or.inl seq, fun _ => rfl⟩
  · have register : ¬storesDescriptor opcode := by
      rw [storesDescriptor, place, immediate immed]
      decide
    rw [if_pos immed, if_pos immed]
    by_cases buffer : jobBuffer src
    · have pointer : flags &&& Flag.seq = 0 := not_not.1 fun seq => sequence seq buffer
      rw [followStore (command.trans (if_neg (not_not_intro pointer))), if_neg register, if_pos buffer]
      exact ⟨fun none => by omega, fun told => absurd buffer told.1⟩
    · obtain ⟨whole, short⟩ := same immed buffer
      have small : length.toNat < 2 ^ 31 := Nat.lt_of_le_of_lt short (by decide)
      have fits : immediateWords len = inlineWords flags length ↔ inlineFits flags length := by rw [whole, inlineTold small]
      rw [if_neg buffer]
      by_cases seq : flags &&& Flag.seq = 0
      · rw [followStore (command.trans (if_neg (not_not_intro seq))), if_neg register, if_pos (imm.2 immed), if_pos seq, told,
          Nat.add_left_cancel_iff, fits]
        exact ⟨fun fits => ⟨buffer, fits⟩, fun told => told.2⟩
      · rw [followSeqStore (command.trans (if_pos seq)), if_pos (imm.2 immed), if_neg seq, told, Nat.zero_add, fits]
        exact ⟨fun fits => ⟨buffer, fits⟩, fun told => told.2⟩

end Flexbuild.Rta
