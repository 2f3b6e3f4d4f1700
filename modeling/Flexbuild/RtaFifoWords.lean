import Flexbuild.RtaLoadWords

/-! What a walk sees of the command words for the FIFOs, the arithmetic, the jumps and the headers.
While the operands stay inside of their fields, the walk finds the commands of a run exactly when
every command that is not refused puts the words it tells. -/
namespace Flexbuild.Rta
open BitFields

variable {era : Era} {ps : Bool} {opcode length flags field mask flag base val : Word}

theorem followFifoLoad (command : opcode &&& cmdMask = cmdFifoLoad) :
    followWords ps opcode = (if opcode &&& Fifo.imm ≠ 0 then immediateWords (opcode &&& Fifo.lenMask) else pointerWords ps) +
      bitWords opcode Fifo.ext := by
  rw [followWords, command]
  rfl

theorem followSeqFifoLoad (command : opcode &&& cmdMask = cmdSeqFifoLoad) : followWords ps opcode = bitWords opcode Fifo.ext := by
  rw [followWords, command]
  rfl

def fifoActions (flags opcode : Word) : Word :=
  orIf flags Flag.last2 (Fifo.type 0x04) (orIf flags Flag.last1 (Fifo.type 0x02) (orIf flags Flag.flush1 (Fifo.type 0x01)
    (orIf flags Flag.both Fifo.both (orIf flags Flag.class2 Fifo.class2 (orIf flags Flag.class1 Fifo.class1 opcode)))))

theorem fifoActionsSeen (apart : (Fifo.both ||| Fifo.type 0x07) &&& mask = 0) :
    fifoActions flags base &&& mask = base &&& mask := by
  have within {x : Word} (inside : Inside x (Fifo.both ||| Fifo.type 0x07)) : x &&& mask = 0 := insideApart inside apart
  rw [fifoActions, orIfSeen (within (by decide)), orIfSeen (within (by decide)), orIfSeen (within (by decide)),
    orIfSeen (within (by decide)), orIfSeen (within (by decide)), orIfSeen (within (by decide))]

def fifoLoadBase (val flags : Word) : Word :=
  let opcode := fifoActions flags ((if flags &&& Flag.seq ≠ 0 then cmdSeqFifoLoad else cmdFifoLoad) ||| val)
  if flags &&& Flag.seq = 0 then orIf flags Flag.immed Fifo.imm (orIf flags Flag.sgf Fifo.sgf opcode)
  else orIf flags Flag.aidf Fifo.aidf (orIf flags Flag.vlf Fifo.vlf opcode)

theorem fifoLoadParts {src : Word} (encoded : fifoLoadOpcode era src length flags = .ok opcode) :
    (flags &&& Flag.seq ≠ 0 → flags &&& Flag.immed = 0) ∧
    (flags &&& Flag.seq = 0 → flags &&& Flag.immed ≠ 0 → ¬extended length flags) ∧
    ∃ val, (src, val) ∈ fifoLoadTable ∧ opcode = if extended length flags then
        fifoLoadBase val flags ||| Fifo.ext ||| (if src = Reg.bitData then length % 8 else 0) &&& Fifo.lenMask
      else fifoLoadBase val flags ||| length &&& Fifo.lenMask := by
  unfold fifoLoadOpcode at encoded
  obtain ⟨sequence, encoded⟩ := passed encoded
  iterate 5 obtain ⟨-, encoded⟩ := passed encoded
  obtain ⟨whole, encoded⟩ := passed encoded
  obtain ⟨val, found, encoded⟩ := bound encoded
  cases encoded
  exact ⟨fun seq => not_not.1 fun immed => sequence ⟨seq, Or.inl immed⟩, fun pointer immed long => whole ⟨pointer, immed, long⟩,
    val, mapOpcodeTake found, rfl⟩

theorem fifoLoadEntries : ∀ entry ∈ fifoLoadTable, entry.2 &&& (cmdMask ||| Fifo.imm ||| Fifo.lenMask) = 0 := everyEntry (by decide)

theorem fifoLoadBaseSeen (actions : (Fifo.both ||| Fifo.type 0x07) &&& mask = 0) (sgf : Fifo.sgf &&& mask = 0)
    (imm : Fifo.imm &&& mask = 0) (clear : val &&& mask = 0) :
    fifoLoadBase val flags &&& mask = (if flags &&& Flag.seq ≠ 0 then cmdSeqFifoLoad else cmdFifoLoad) &&& mask := by
  rw [fifoLoadBase]
  split
  · rw [orIfSeen imm, orIfSeen sgf, fifoActionsSeen actions, seenLeft clear]
  · rw [orIfSeen (show Fifo.aidf &&& mask = 0 from imm), orIfSeen (show Fifo.vlf &&& mask = 0 from sgf),
      fifoActionsSeen actions, seenLeft clear]

theorem shortInside (short : ¬extended length flags) : Inside length Fifo.lenMask := by
  have high : length >>> 16 = 0 := not_not.1 (not_or.1 short).2
  have zero := congrArg BitVec.toNat high
  rw [BitVec.toNat_ushiftRight, Nat.shiftRight_eq_div_pow] at zero
  change length.toNat / 2 ^ 16 = 0 at zero
  exact insideBelow 16 (by omega) (by decide)

theorem fifoLoadWords {src : Word} {loc : BitVec 64} (encoded : fifoLoadOpcode era src length flags = .ok opcode) :
    followWords ps opcode = (Command.fifoLoad src loc length flags).follow ps opcode ↔
      (Command.fifoLoad src loc length flags).Told := by
  obtain ⟨sequence, whole, val, member, word⟩ := fifoLoadParts encoded
  have clear {mask : Word} (within : Inside mask (cmdMask ||| Fifo.imm ||| Fifo.lenMask)) : val &&& mask = 0 :=
    clearWithin (fifoLoadEntries _ member) within
  have seen {mask : Word} (len : Fifo.lenMask &&& mask = 0) (ext : Fifo.ext &&& mask = 0) :
      opcode &&& mask = fifoLoadBase val flags &&& mask := by
    rw [word]
    split
    · rw [seenLeft (insideApart (insideMask _ Fifo.lenMask) len), seenLeft ext]
    · exact seenLeft (insideApart (insideMask _ Fifo.lenMask) len)
  have command : opcode &&& cmdMask = if flags &&& Flag.seq ≠ 0 then cmdSeqFifoLoad else cmdFifoLoad := by
    rw [seen (by decide) (by decide), fifoLoadBaseSeen (by decide) (by decide) (by decide) (clear (by decide))]
    split <;> decide
  rw [Command.follow, Command.Told]
  by_cases seq : flags &&& Flag.seq = 0
  · have imm : opcode &&& Fifo.imm ≠ 0 ↔ flags &&& Flag.immed ≠ 0 := by
      rw [seen (by decide) (by decide), fifoLoadBase, if_pos seq]
      refine orIfTells ?_ (by decide)
      rw [orIfSeen (by decide), fifoActionsSeen (by decide), seenLeft (clear (by decide))]
      split <;> decide
    rw [followFifoLoad (command.trans (if_neg (not_not_intro seq))), Nat.add_right_cancel_iff, if_pos seq]
    by_cases immed : flags &&& Flag.immed = 0
    · rw [if_neg (mt imm.1 (not_not_intro immed)), if_neg (not_not_intro immed)]
      exact ⟨fun _ => Or.inl immed, fun _ => rfl⟩
    · have short := whole seq immed
      have low : Inside length Fifo.lenMask := shortInside short
      have len : opcode &&& Fifo.lenMask = length := by
        rw [word, if_neg short, seenRight]
        · rw [insideMask length Fifo.lenMask]
          exact low
        · rw [fifoLoadBaseSeen (by decide) (by decide) (by decide) (clear (by decide))]
          split <;> decide
      have small : length.toNat < 2 ^ 31 := by
        rw [← low, BitVec.toNat_and]
        exact Nat.lt_of_le_of_lt Nat.and_le_right (by decide)
      rw [if_pos (imm.2 immed), if_pos immed, len, inlineTold small]
      exact ⟨Or.inr, fun told => told.resolve_left immed⟩
  · have plain := sequence seq
    rw [followSeqFifoLoad (command.trans (if_pos seq)), if_neg (not_not_intro plain), if_neg seq, Nat.zero_add]
    exact ⟨fun _ => Or.inl plain, fun _ => rfl⟩

theorem followFifoStore (command : opcode &&& cmdMask = cmdFifoStore) :
    followWords ps opcode = (if opcode &&& Fifo.typeMask = rngFifo then 0 else pointerWords ps) + bitWords opcode Fifo.ext := by
  rw [followWords, command]
  rfl

theorem followSeqFifoStore (command : opcode &&& cmdMask = cmdSeqFifoStore) :
    followWords ps opcode = bitWords opcode Fifo.ext := by
  rw [followWords, command]
  rfl

def fifoStoreType (val encryptFlags flags : Word) : Word :=
  let opcode := orIf encryptFlags Flag.tk (Fifo.type 0x01)
    ((if flags &&& Flag.seq ≠ 0 then cmdSeqFifoStore else cmdFifoStore) ||| val)
  if encryptFlags &&& Flag.ekt ≠ 0 then (opcode ||| Fifo.type 0x10) &&& ~~~Fifo.type 0x20 else opcode

def fifoStoreBase (val encryptFlags flags : Word) : Word :=
  let opcode := orIf flags Flag.cont Fifo.cont (fifoStoreType val encryptFlags flags)
  let opcode := if flags &&& Flag.seq ≠ 0 then orIf flags Flag.vlf Fifo.vlf opcode else orIf flags Flag.sgf Fifo.sgf opcode
  orIf flags Flag.both Fifo.both (orIf flags Flag.class2 Fifo.class2 (orIf flags Flag.class1 Fifo.class1 opcode))

variable {src encryptFlags : Word} {dst : BitVec 64}

theorem fifoStoreParts (encoded : fifoStoreOpcode era src encryptFlags dst length flags = .ok opcode) :
    ∃ val, (src, val) ∈ fifoStoreTable ∧ opcode = if extended length flags then fifoStoreBase val encryptFlags flags ||| Fifo.ext
      else fifoStoreBase val encryptFlags flags ||| length &&& Fifo.lenMask := by
  unfold fifoStoreOpcode at encoded
  iterate 5 obtain ⟨-, encoded⟩ := passed encoded
  obtain ⟨val, found, encoded⟩ := bound encoded
  obtain ⟨-, encoded⟩ := passed encoded
  cases encoded
  exact ⟨val, mapOpcodeTake found, rfl⟩

theorem fifoStoreEntries : ∀ entry ∈ fifoStoreTable, entry.2 &&& cmdMask = 0 ∧ ∀ trusted ccm : Bool,
    let type := if trusted then entry.2 ||| Fifo.type 0x01 else entry.2
    (if ccm then (type ||| Fifo.type 0x10) &&& ~~~Fifo.type 0x20 else type) &&& Fifo.typeMask = rngFifo ↔
      ccm = false ∧ (entry.1 = Reg.rngofifo ∨ entry.1 = Reg.rng ∧ trusted = true) :=
  everyEntry (by decide)

theorem fifoStoreBaseSeen (apart : (Fifo.both ||| Fifo.cont ||| Fifo.sgf) &&& mask = 0) :
    fifoStoreBase val encryptFlags flags &&& mask = fifoStoreType val encryptFlags flags &&& mask := by
  have within {x : Word} (inside : Inside x (Fifo.both ||| Fifo.cont ||| Fifo.sgf)) : x &&& mask = 0 := insideApart inside apart
  rw [fifoStoreBase, orIfSeen (within (by decide)), orIfSeen (within (by decide)), orIfSeen (within (by decide))]
  split
  · rw [orIfSeen (within (by decide)), orIfSeen (within (by decide))]
  · rw [orIfSeen (within (by decide)), orIfSeen (within (by decide))]

theorem fifoStoreCommand (clear : val &&& cmdMask = 0) :
    fifoStoreType val encryptFlags flags &&& cmdMask = if flags &&& Flag.seq ≠ 0 then cmdSeqFifoStore else cmdFifoStore := by
  have command : orIf encryptFlags Flag.tk (Fifo.type 0x01)
      ((if flags &&& Flag.seq ≠ 0 then cmdSeqFifoStore else cmdFifoStore) ||| val) &&& cmdMask =
        if flags &&& Flag.seq ≠ 0 then cmdSeqFifoStore else cmdFifoStore := by
    rw [orIfSeen (by decide), seenLeft clear]
    split <;> decide
  rw [fifoStoreType]
  split
  · rw [BitVec.and_assoc, show ~~~Fifo.type 0x20 &&& cmdMask = cmdMask by decide, seenLeft (by decide), command]
  · exact command

theorem fifoStoreRandom (member : (src, val) ∈ fifoStoreTable) :
    fifoStoreType val encryptFlags flags &&& Fifo.typeMask = rngFifo ↔ encryptFlags &&& Flag.ekt = 0 ∧
      (src = Reg.rngofifo ∨ src = Reg.rng ∧ encryptFlags &&& Flag.tk ≠ 0) := by
  have entry := (fifoStoreEntries _ member).2 (encryptFlags &&& Flag.tk ≠ 0) (encryptFlags &&& Flag.ekt ≠ 0)
  have command {mask : Word} (store : cmdFifoStore &&& mask = 0) (seqStore : cmdSeqFifoStore &&& mask = 0) :
      (if flags &&& Flag.seq ≠ 0 then cmdSeqFifoStore else cmdFifoStore) &&& mask = 0 := by
    split
    · exact seqStore
    · exact store
  have trusted {mask : Word} (store : cmdFifoStore &&& mask = 0) (seqStore : cmdSeqFifoStore &&& mask = 0) :
      orIf encryptFlags Flag.tk (Fifo.type 0x01)
        ((if flags &&& Flag.seq ≠ 0 then cmdSeqFifoStore else cmdFifoStore) ||| val) &&& mask =
      (if encryptFlags &&& Flag.tk ≠ 0 then val ||| Fifo.type 0x01 else val) &&& mask := by
    unfold orIf
    split
    · rw [BitVec.or_assoc, seenRight (command store seqStore)]
    · exact seenRight (command store seqStore)
  have same : fifoStoreType val encryptFlags flags &&& Fifo.typeMask =
      (let type := if encryptFlags &&& Flag.tk ≠ 0 then val ||| Fifo.type 0x01 else val
      if encryptFlags &&& Flag.ekt ≠ 0 then (type ||| Fifo.type 0x10) &&& ~~~Fifo.type 0x20 else type) &&& Fifo.typeMask := by
    rw [fifoStoreType]
    dsimp only
    by_cases ccm : encryptFlags &&& Flag.ekt ≠ 0
    · rw [if_pos ccm, if_pos ccm, BitVec.and_assoc, BitVec.and_assoc, BitVec.and_or_distrib_right,
        BitVec.and_or_distrib_right, trusted (by decide) (by decide)]
    · rw [if_neg ccm, if_neg ccm, trusted (by decide) (by decide)]
  rw [same]
  simpa using entry

theorem fifoStoreWords (encoded : fifoStoreOpcode era src encryptFlags dst length flags = .ok opcode) :
    followWords ps opcode = (Command.fifoStore src encryptFlags dst length flags).follow ps opcode ↔
      (Command.fifoStore src encryptFlags dst length flags).Told := by
  obtain ⟨val, member, word⟩ := fifoStoreParts encoded
  have seen {mask : Word} (len : Fifo.lenMask &&& mask = 0) (ext : Fifo.ext &&& mask = 0) :
      opcode &&& mask = fifoStoreBase val encryptFlags flags &&& mask := by
    rw [word]
    split
    · exact seenLeft ext
    · exact seenLeft (insideApart (insideMask _ Fifo.lenMask) len)
  have command : opcode &&& cmdMask = if flags &&& Flag.seq ≠ 0 then cmdSeqFifoStore else cmdFifoStore := by
    rw [seen (by decide) (by decide), fifoStoreBaseSeen (by decide), fifoStoreCommand (fifoStoreEntries _ member).1]
  have type : fifoStoreType val encryptFlags flags &&& Fifo.typeMask = rngFifo ↔ _ := fifoStoreRandom member
  rw [← fifoStoreBaseSeen (by decide), ← seen (by decide) (by decide)] at type
  have positive := pointerPositive ps
  rw [Command.follow, Command.Told]
  by_cases seq : flags &&& Flag.seq = 0
  · rw [followFifoStore (command.trans (if_neg (not_not_intro seq))), Nat.add_right_cancel_iff, ← type]
    by_cases none : opcode &&& Fifo.typeMask = rngFifo
    · rw [if_pos none]
      by_cases dst0 : dst = 0
      · rw [if_neg fun pointer => pointer.2 dst0]
        exact ⟨fun _ => Or.inr ⟨fun _ => none, fun _ => dst0⟩, fun _ => rfl⟩
      · rw [if_pos ⟨seq, dst0⟩]
        exact ⟨fun same => by omega, fun told => absurd ((told.resolve_left (not_not_intro seq)).2 none) dst0⟩
    · rw [if_neg none]
      by_cases dst0 : dst = 0
      · rw [if_neg fun pointer => pointer.2 dst0]
        exact ⟨fun same => by omega, fun told => absurd ((told.resolve_left (not_not_intro seq)).1 dst0) none⟩
      · rw [if_pos ⟨seq, dst0⟩]
        exact ⟨fun _ => Or.inr ⟨fun zero => absurd zero dst0, fun type => absurd type none⟩, fun _ => rfl⟩
  · rw [followSeqFifoStore (command.trans (if_pos seq)), if_neg (fun pointer => seq pointer.1), Nat.zero_add]
    exact ⟨fun _ => Or.inl seq, fun _ => rfl⟩

theorem seqInPtrCommand {src : BitVec 64} (encoded : seqInPtrOpcode era src length flags = .ok opcode) :
    opcode &&& cmdMask = cmdSeqInPtr := by
  unfold seqInPtrOpcode at encoded
  iterate 6 obtain ⟨-, encoded⟩ := passed encoded
  have whole {w : Word} (own : (if extended length flags then w ||| Sqin.ext else w ||| length &&& Sqin.lenMask) = opcode) :
      opcode &&& cmdMask = w &&& cmdMask := by
    rw [← own]
    split
    · exact seenLeft (by decide)
    · exact seenLeft (insideApart (insideMask length Sqin.lenMask) (by decide))
  rw [whole (Except.ok.inj encoded), orIfSeen (by decide), orIfSeen (by decide), orIfSeen (by decide), orIfSeen (by decide),
    orIfSeen (by decide), orIfSeen (by decide), orIfSeen (by decide)]
  decide

theorem seqOutPtrCommand (encoded : seqOutPtrOpcode era dst length flags = .ok opcode) :
    opcode &&& cmdMask = cmdSeqOutPtr := by
  unfold seqOutPtrOpcode at encoded
  iterate 4 obtain ⟨-, encoded⟩ := passed encoded
  have whole {w : Word} (own : (if extended length flags then w ||| Sqout.ext else w ||| length &&& Sqout.lenMask) = opcode) :
      opcode &&& cmdMask = w &&& cmdMask := by
    rw [← own]
    split
    · exact seenLeft (by decide)
    · exact seenLeft (insideApart (insideMask length Sqout.lenMask) (by decide))
  rw [whole (Except.ok.inj encoded), orIfSeen (by decide), orIfSeen (by decide), orIfSeen (by decide), orIfSeen (by decide),
    orIfSeen (by decide)]
  decide

theorem seqInPtrWords {src : BitVec 64} (encoded : seqInPtrOpcode era src length flags = .ok opcode) :
    followWords ps opcode = (Command.seqInPtr src length flags).follow ps opcode := by
  rw [followWords, seqInPtrCommand encoded]
  rfl

theorem seqOutPtrWords (encoded : seqOutPtrOpcode era dst length flags = .ok opcode) :
    followWords ps opcode = (Command.seqOutPtr dst length flags).follow ps opcode := by
  rw [followWords, seqOutPtrCommand encoded]
  rfl

variable {share : ShareType}

theorem shrHeaderWords {startIdx : Word} (encoded : shrOpcode era share startIdx flags = .ok opcode) :
    followWords ps opcode = (Command.shrHeader share startIdx flags).follow ps opcode := by
  have command : opcode &&& cmdMask = cmdSharedDescHdr := maskedThrough (shrOpcodeKeeps encoded) (by decide)
  rw [followWords, command]
  rfl

theorem jobHeaderExt {startIdx extFlags hdrExt : Word}
    (encoded : jobOpcode era share startIdx flags extFlags = .ok (opcode, hdrExt)) :
    opcode &&& Hdr.ext ≠ 0 ↔ flags &&& Flag.dnr ≠ 0 ∨ flags &&& Flag.ext ≠ 0 := by
  unfold jobOpcode at encoded
  repeat' split at encoded
  all_goals try cases encoded
  rw [orIfSeen (by decide), orIfSeen (by decide), orIfSeen (by decide), orIfSeen (by decide)]
  have clear : (cmdDescHdr ||| shareField share ||| Hdr.one ||| startIdxField startIdx) &&& Hdr.ext = 0 := by
    rw [seenLeft]
    · cases share <;> decide
    · exact insideApart (insideMask _ Hdr.startIdxMask) (by decide)
  by_cases dnr : flags &&& Flag.dnr = 0
  · have tells : orIf flags Flag.ext Hdr.ext
        (cmdDescHdr ||| shareField share ||| Hdr.one ||| startIdxField startIdx) &&& Hdr.ext ≠ 0 ↔ flags &&& Flag.ext ≠ 0 :=
      orIfTells clear (by decide)
    rw [orIf, if_neg (not_not_intro dnr), orIfSeen (by decide), tells]
    simp only [dnr, ne_eq, not_true_eq_false, false_or]
  · rw [orIf, if_pos dnr]
    refine ⟨fun _ => Or.inl dnr, fun _ zero => ?_⟩
    rw [BitVec.and_or_distrib_right] at zero
    exact absurd (BitVec.or_eq_zero_iff.1 zero).2 (by decide)

theorem jobHeaderWords {startIdx extFlags hdrExt : Word} {shrDesc : BitVec 64}
    (encoded : jobOpcode era share startIdx flags extFlags = .ok (opcode, hdrExt)) :
    followWords ps opcode = (Command.jobHeader share startIdx shrDesc flags extFlags).follow ps opcode ↔
      (Command.jobHeader share startIdx shrDesc flags extFlags).Told := by
  have command : opcode &&& cmdMask = cmdDescHdr := maskedThrough (jobOpcodeKeeps encoded) (by decide)
  have walked : followWords ps opcode =
      (if opcode &&& Hdr.shared ≠ 0 then pointerWords ps else 0) + bitWords opcode Hdr.ext := by
    rw [followWords, command]
    rfl
  rw [walked, Command.follow, Command.Told, Nat.add_left_cancel_iff, bitWords, bitWords, if_congr (jobHeaderExt encoded) rfl rfl]
  by_cases ext : flags &&& Flag.ext ≠ 0
  · rw [if_pos (Or.inr ext), if_pos ext]
    exact ⟨fun _ _ => ext, fun _ => rfl⟩
  · rw [if_neg ext]
    by_cases dnr : flags &&& Flag.dnr ≠ 0
    · rw [if_pos (Or.inl dnr)]
      exact ⟨fun same => by omega, fun told => absurd (told dnr) ext⟩
    · rw [if_neg (not_or_intro dnr ext)]
      exact ⟨fun _ set => absurd set dnr, fun _ => rfl⟩

def jumpMask : Word := cmdMask ||| jumpTypeMask

theorem jumpConditions : ∀ entry ∈ jumpTestCond, entry.2 &&& jumpMask = 0 := everyEntry (by decide)

theorem jumpMathConditions : ∀ entry ∈ jumpTestMathCond, entry.2 &&& jumpMask = 0 := everyEntry (by decide)

theorem jumpRegisters : ∀ entry ∈ jumpSrcDst, entry.2 &&& jumpMask = 0 := everyEntry (by decide)

variable {testType : JumpCond}

theorem jumpCondClear {test : Word} (found : jumpCondField testType = .ok test) : test &&& jumpMask = 0 := by
  cases testType <;> cases found <;> decide

variable {jumpType : JumpType}

theorem jumpTypeInside {kind : Word} (found : jumpTypeField jumpType = .ok kind) :
    kind &&& jumpTypeMask = kind ∧ kind &&& cmdMask = 0 ∧ (kind = jumpNonlocal ↔ jumpType = .farJump) := by
  cases jumpType <;> cases found <;> decide

variable {address : BitVec 64}

theorem jumpAddress {word : Word}
    (encoded : (if jumpType = .localJump ∨ jumpType = .localJumpInc ∨ jumpType = .localJumpDec ∨ jumpType = .gosub ∨
        jumpType = .haltStatus then .ok (word ||| address.extractLsb' 0 32 &&& 0xff) else .ok word : Except Unit Word) = .ok opcode) :
    opcode &&& jumpMask = word &&& jumpMask := by
  split at encoded
  · cases encoded
    exact seenLeft (insideApart (insideMask _ (0xff : Word)) (by decide))
  · cases encoded
    rfl

theorem jumpKept {testCondition srcDst : Word}
    (encoded : jumpOpcode era address jumpType testType testCondition srcDst = .ok opcode) :
    ∃ kind, jumpTypeField jumpType = .ok kind ∧ opcode &&& jumpMask = (cmdJump ||| kind) &&& jumpMask := by
  unfold jumpOpcode at encoded
  obtain ⟨-, encoded⟩ := passed encoded
  obtain ⟨-, encoded⟩ := passed encoded
  obtain ⟨kind, foundKind, encoded⟩ := bound encoded
  obtain ⟨test, foundTest, encoded⟩ := bound encoded
  refine ⟨kind, foundKind, ?_⟩
  dsimp only at encoded
  split at encoded
  · obtain ⟨word, same, encoded⟩ := bound encoded
    cases same
    rw [jumpAddress encoded, mapFlagsSeen jumpConditions, seenLeft (jumpCondClear foundTest)]
  · obtain ⟨register, found, encoded⟩ := bound encoded
    obtain ⟨word, same, encoded⟩ := bound encoded
    cases same
    have clear : register &&& jumpMask = 0 := jumpRegisters _ (mapOpcodeMem found)
    rw [jumpAddress encoded, mapFlagsSeen jumpMathConditions, seenLeft clear, seenLeft (jumpCondClear foundTest)]

theorem jumpWords {testCondition srcDst : Word}
    (encoded : jumpOpcode era address jumpType testType testCondition srcDst = .ok opcode) :
    followWords ps opcode = (Command.jump address jumpType testType testCondition srcDst).follow ps opcode := by
  obtain ⟨kind, found, kept⟩ := jumpKept encoded
  obtain ⟨inside, apart, far⟩ := jumpTypeInside found
  have through {part : Word} (within : Inside part jumpMask) : opcode &&& part = (cmdJump ||| kind) &&& part := by
    rw [← within, BitVec.and_comm part, ← BitVec.and_assoc, ← BitVec.and_assoc, kept]
  have command : opcode &&& cmdMask = cmdJump := by
    rw [through (by decide), seenLeft apart]
    decide
  have type : opcode &&& jumpTypeMask = kind := by
    rw [through (by decide), seenRight (by decide), inside]
  have walked : followWords ps opcode = if opcode &&& jumpTypeMask = jumpNonlocal then pointerWords ps else 0 := by
    rw [followWords, command]
    rfl
  rw [walked, type, Command.follow]
  exact if_congr far rfl rfl

theorem mathOp1Entries : ∀ entry ∈ mathOp1, Inside entry.2 Math.src0Mask ∧ entry.2 ≠ Math.src0Imm := everyEntry (by decide)

theorem mathOp2Entries : ∀ entry ∈ mathOp2, Inside entry.2 Math.src1Mask ∧ entry.2 ≠ Math.src1Imm := everyEntry (by decide)

theorem mathResultEntries : ∀ entry ∈ mathResult, Inside entry.2 (Math.dest 0x0f) := everyEntry (by decide)

theorem mathFirst {operand1 : BitVec 64} {options first : Word} (found : mathOperand1 era operand1 options = .ok first) :
    Inside first Math.src0Mask ∧ (first = Math.src0Imm ↔ options &&& Flag.immed ≠ 0) := by
  unfold mathOperand1 at found
  split at found
  · next immed =>
    cases found
    exact ⟨by decide, fun _ => immed, fun _ => rfl⟩
  · next register =>
    obtain ⟨inside, other⟩ := mathOp1Entries _ (mapOpcodeTake found)
    exact ⟨inside, fun imm => absurd imm other, fun immed => absurd immed register⟩

theorem mathSecond {operand2 : BitVec 64} {options second : Word} (found : mathOperand2 era operand2 options = .ok second) :
    Inside second Math.src1Mask ∧ (second = Math.src1Imm ↔ options &&& Flag.immed2 ≠ 0) := by
  unfold mathOperand2 at found
  split at found
  · next immed =>
    cases found
    exact ⟨by decide, fun _ => immed, fun _ => rfl⟩
  · next register =>
    obtain ⟨inside, other⟩ := mathOp2Entries _ (mapOpcodeTake found)
    exact ⟨inside, fun imm => absurd imm other, fun immed => absurd immed register⟩

theorem mathFunInside {op fn : Word} (found : mathFun op = .ok fn) : Inside fn (Math.function 0x0f) := by
  unfold mathFun at found
  split at found
  · next valid =>
    cases found
    exact insideOf valid.1
  · cases found

theorem mathLengthTells {length : Int} {len : Word} (found : mathLength length = .ok len) :
    Inside len 0x0f ∧ (len &&& Math.len8byte ≠ 0 ↔ 4 < length) := by
  unfold mathLength at found
  split at found
  · next one => cases found; subst one; decide
  · split at found
    · next two => cases found; subst two; decide
    · split at found
      · next four => cases found; subst four; decide
      · split at found
        · next eight => cases found; subst eight; decide
        · cases found

def mathOptions (options : Word) : Word := options &&& ~~~(Flag.immed ||| Flag.immed2)

theorem mathParts {operand1 operand2 : BitVec 64} {op result options : Word} {length : Int}
    (encoded : mathOpcode era operand1 op operand2 result length options = .ok opcode) :
    ∃ first second dest fn len, mathOperand1 era operand1 options = .ok first ∧ mathOperand2 era operand2 options = .ok second ∧
      Inside dest (Math.dest 0x0f) ∧ Inside fn (Math.function 0x0f) ∧ mathLength length = .ok len ∧
      opcode = cmdMath ||| first ||| second ||| dest ||| fn ||| mathOptions options ||| len := by
  unfold mathOpcode at encoded
  dsimp only at encoded
  iterate 5 obtain ⟨-, encoded⟩ := passed encoded
  obtain ⟨first, foundFirst, encoded⟩ := bound encoded
  obtain ⟨second, foundSecond, encoded⟩ := bound encoded
  obtain ⟨dest, foundDest, encoded⟩ := bound encoded
  obtain ⟨fn, foundFn, encoded⟩ := bound encoded
  obtain ⟨len, foundLen, encoded⟩ := bound encoded
  cases encoded
  exact ⟨first, second, dest, fn, len, foundFirst, foundSecond, mathResultEntries _ (mapOpcodeTake foundDest),
    mathFunInside foundFn, foundLen, rfl⟩

theorem mathOpcodeWords {operand1 operand2 : BitVec 64} {op result options : Word} {length : Int}
    (encoded : mathOpcode era operand1 op operand2 result length options = .ok opcode)
    (plain : (Command.math operand1 op operand2 result length options).Plain) :
    followWords ps opcode = (Command.math operand1 op operand2 result length options).follow ps opcode := by
  obtain ⟨first, second, dest, fn, len, foundFirst, foundSecond, destInside, fnInside, foundLen, word⟩ := mathParts encoded
  obtain ⟨firstInside, firstImm⟩ := mathFirst foundFirst
  obtain ⟨secondInside, secondImm⟩ := mathSecond foundSecond
  obtain ⟨lenInside, eight⟩ := mathLengthTells foundLen
  have clear : options &&& mathFields = 0 := plain
  have optionsClear {mask : Word} (within : Inside mask mathFields) : mathOptions options &&& mask = 0 := by
    rw [mathOptions, BitVec.and_assoc, BitVec.and_comm (~~~_), ← BitVec.and_assoc, clearWithin clear within]
    exact BitVec.zero_and
  have command : opcode &&& cmdMask = cmdMath := by
    have stay : Inside (mathOptions options &&& cmdMask) cmdMath := by
      refine insideOf ?_
      rw [BitVec.and_assoc]
      exact optionsClear (by decide)
    rw [word, seenLeft (insideApart lenInside (by decide)), BitVec.and_or_distrib_right, seenLeft (insideApart fnInside (by decide)),
      seenLeft (insideApart destInside (by decide)), seenLeft (insideApart secondInside (by decide)),
      seenLeft (insideApart firstInside (by decide)), show cmdMath &&& cmdMask = cmdMath by decide]
    exact orInside stay
  have src0 : opcode &&& Math.src0Mask = first := by
    rw [word, seenLeft (insideApart lenInside (by decide)), seenLeft (optionsClear (by decide)),
      seenLeft (insideApart fnInside (by decide)), seenLeft (insideApart destInside (by decide)),
      seenLeft (insideApart secondInside (by decide)), seenRight (by decide)]
    exact firstInside
  have src1 : opcode &&& Math.src1Mask = second := by
    rw [word, seenLeft (insideApart lenInside (by decide)), seenLeft (optionsClear (by decide)),
      seenLeft (insideApart fnInside (by decide)), seenLeft (insideApart destInside (by decide)), seenRight]
    · exact secondInside
    · rw [seenLeft (insideApart firstInside (by decide))]
      decide
  have wide : opcode &&& Math.len8byte ≠ 0 ↔ 4 < length := by
    rw [← eight, word, seenRight]
    rw [seenLeft, seenLeft (insideApart fnInside (by decide)), seenLeft (insideApart destInside (by decide)),
      seenLeft (insideApart secondInside (by decide)), seenLeft (insideApart firstInside (by decide))]
    · decide
    · rw [mathOptions, BitVec.and_assoc, show ~~~(Flag.immed ||| Flag.immed2) &&& Math.len8byte = 0#32 by decide]
      exact BitVec.and_zero
  have ifb : opcode &&& Math.ifb = 0 ↔ options &&& Math.ifb = 0 := by
    rw [word, seenLeft (insideApart lenInside (by decide)), seenRight]
    · rw [mathOptions, BitVec.and_assoc, show ~~~(Flag.immed ||| Flag.immed2) &&& Math.ifb = Math.ifb by decide]
    · rw [seenLeft (insideApart fnInside (by decide)), seenLeft (insideApart destInside (by decide)),
        seenLeft (insideApart secondInside (by decide)), seenLeft (insideApart firstInside (by decide))]
      decide
  have walked : followWords ps opcode = mathWords opcode := by
    rw [followWords, command]
    rfl
  rw [walked, mathWords, Command.follow, src0, src1, pointerWords]
  simp only [firstImm, secondImm, wide, ifb, decide_eq_true_eq]
  by_cases one : options &&& Flag.immed = 0 <;> by_cases two : options &&& Flag.immed2 = 0 <;>
    simp only [one, two, ne_eq, not_true_eq_false, not_false_eq_true, and_self, and_true, and_false, or_self, or_true,
      or_false, if_true, if_false]

section Delimited

variable {machine : Machine} {era : Era} {p : Program} {ps : Bool} {opcode : Word} {command : Command}
  {commands : List Command}

theorem toldWords (encoded : command.opcode era = .ok opcode) (plain : command.Plain) :
    followWords ps opcode = command.follow ps opcode ↔ command.Told := by
  cases command with
  | shrHeader => exact iff_of_true (shrHeaderWords encoded) trivial
  | jobHeader share startIdx shrDesc flags extFlags =>
    match whole : jobOpcode era share startIdx flags extFlags with
    | .error _ =>
      rw [Command.opcode, whole] at encoded
      cases encoded
    | .ok (word, hdrExt) =>
      rw [Command.opcode, whole] at encoded
      cases encoded
      exact jobHeaderWords whole
  | load => exact loadWords encoded
  | store => exact storeWords encoded plain
  | key => exact keyWords encoded
  | fifoLoad => exact fifoLoadWords encoded
  | fifoStore => exact fifoStoreWords encoded
  | math => exact iff_of_true (mathOpcodeWords encoded plain) trivial
  | jump => exact iff_of_true (jumpWords encoded) trivial
  | seqInPtr => exact iff_of_true (seqInPtrWords encoded) trivial
  | seqOutPtr => exact iff_of_true (seqOutPtrWords encoded) trivial

def started (buffer : Nat → Word) (offset : Word) (ps bswap : Bool) : Program :=
  { rtaProgramCntxtInit buffer offset with ps, bswap }

theorem startedFirst {buffer : Nat → Word} {offset : Word} {bswap : Bool}
    (headers : ∀ command ∈ commands.tail, command.isHeader = false) : HeaderFirst (started buffer offset ps bswap) commands :=
  ⟨fun _ _ _ => rfl, headers⟩

def Command.Accepted (era : Era) (command : Command) : Prop := ∃ opcode, command.opcode era = .ok opcode

theorem commandsDelimited (machine : Machine) (era : Era) (buffer : Nat → Word) (offset : Word) (ps bswap : Bool)
    (commands : List Command) (headers : ∀ command ∈ commands.tail, command.isHeader = false)
    (room : (build machine era (started buffer offset ps bswap) commands).emitted < 2 ^ 32) :
    ((∀ command ∈ commands, command.Accepted era → command.Plain ∧ command.Told) →
      Delimited machine era (started buffer offset ps bswap) commands) ∧
    ((∀ command ∈ commands, command.Accepted era → command.Plain) →
      Delimited machine era (started buffer offset ps bswap) commands →
      ∀ command ∈ commands, command.Accepted era → command.Told) := by
  rw [delimitedIff (startedFirst headers) rfl rfl room]
  constructor
  · intro right command member opcode encoded
    obtain ⟨plain, told⟩ := right command member ⟨opcode, encoded⟩
    exact (toldWords encoded plain).2 told
  · rintro plain same command member ⟨opcode, encoded⟩
    exact (toldWords encoded (plain command member ⟨opcode, encoded⟩)).1 (same command member opcode encoded)

def keyedDescriptor : List Command :=
  [.shrHeader .always 1 0, .key Reg.key1 0 0x1000 16 (Flag.immed ||| Flag.copy), .load 0x2000 (Reg.math0.setWidth 64) 0 8 0,
    .math (Reg.math0.setWidth 64) 0 5 Reg.math1 8 Flag.immed2, .seqInPtr 0x3000 0x12345 0,
    .fifoStore Reg.msg 0 0x4000 64 0, .store (Reg.jobdescbuf.setWidth 64) 0 0 8 0, .jump 0x5000 .farJump .allTrue 0 0]

def plainMachine : Machine := { bigEndian := false, dma := false, memory := fun _ => 0, external := fun _ => 0 }

theorem commandsDelimitedExample : Delimited plainMachine 7 (started (fun _ => 0) 0 true false) keyedDescriptor := by
  have right : ∀ command ∈ keyedDescriptor, command.Plain ∧ command.Told := by decide
  exact (commandsDelimited plainMachine 7 (fun _ => 0) 0 true false keyedDescriptor (by decide) (by decide)).1
    fun command member _ => right command member

theorem keyPointerWalked : ¬Delimited plainMachine 7 (started (fun _ => 0) 0 false false)
    [.shrHeader .always 1 0, .key Reg.key1 0 0 16 Flag.seq, .jump 0 .halt .allTrue 0 0] := by
  unfold Delimited
  decide

end Delimited

end Flexbuild.Rta
