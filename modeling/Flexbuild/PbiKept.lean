import Flexbuild.PbiRewriting

/-! What of a well-formed file is in the rewritten one, and exactly when the rewriting of an
RCW/PBI file does what it is for. -/
namespace Flexbuild.PbiCreation
open ByteMemory (Byte)
open Fields (fullBytes)

variable {cfg : Config} {garbage : BitVec 32} {file out : List Byte} {rcw : List (BitVec 32)}
  {commands : List Command} {crc : BitVec 32}

section Bits

theorem sbEnBit {i : Nat} (inside : i < 32) : sbEnMask.getLsbD i = decide (i = 21) := by
  have all : ∀ i < 32, sbEnMask.getLsbD i = decide (i = 21) := by decide
  exact all i inside

theorem bootHoBit {i : Nat} (inside : i < 32) : bootHoMask.getLsbD i = decide (i = 22) := by
  have all : ∀ i < 32, bootHoMask.getLsbD i = decide (i = 22) := by decide
  exact all i inside

theorem orBit {i : Nat} (inside : i < 32) (w : BitVec 32) : (orBits cfg w).getLsbD i =
    (w.getLsbD i || (decide (i = 21) && cfg.sbEn) || (decide (i = 22) && cfg.bootHo)) := by
  unfold orBits
  cases cfg.sbEn <;> cases cfg.bootHo <;>
    simp only [if_true, if_false, Bool.false_eq_true, BitVec.getLsbD_or, sbEnBit inside, bootHoBit inside,
      Bool.and_true, Bool.and_false, Bool.or_false]

theorem configuredBit {i : Nat} (inside : i < 32) (w : BitVec 32) : (configuredWord cfg w).getLsbD i =
    if i = 21 then cfg.sbEn else if i = 22 then cfg.bootHo else w.getLsbD i := by
  have bits : (configuredWord cfg w).getLsbD i = if cfg.bootHo then
      (if cfg.sbEn then w.getLsbD i || decide (i = 21) else w.getLsbD i && !decide (i = 21)) || decide (i = 22)
      else (if cfg.sbEn then w.getLsbD i || decide (i = 21) else w.getLsbD i && !decide (i = 21)) && !decide (i = 22) := by
    unfold configuredWord setBit
    cases cfg.sbEn <;> cases cfg.bootHo <;>
      simp only [if_true, if_false, Bool.false_eq_true, BitVec.getLsbD_and, BitVec.getLsbD_or, BitVec.getLsbD_not,
        sbEnBit inside, bootHoBit inside, decide_eq_true inside, Bool.true_and]
  rw [bits]
  grind

def writtenWord (cfg : Config) (file : List Byte) (w : BitVec 32) : BitVec 32 :=
  if HasRcw file then orBits cfg w else w

def BitsKept (cfg : Config) (file : List Byte) (w : BitVec 32) : Prop :=
  (w.getLsbD 21 = true → cfg.sbEn = true) ∧ (w.getLsbD 22 = true → cfg.bootHo = true) ∧
    (HasRcw file ∨ (cfg.sbEn = true → w.getLsbD 21 = true) ∧ (cfg.bootHo = true → w.getLsbD 22 = true))

theorem writtenConfigured (w : BitVec 32) : writtenWord cfg file w = configuredWord cfg w ↔ BitsKept cfg file w := by
  unfold writtenWord BitsKept
  constructor
  · intro same
    have first := congrArg (BitVec.getLsbD · 21) same
    have second := congrArg (BitVec.getLsbD · 22) same
    rw [configuredBit (by decide)] at first second
    split at first
    · next whole =>
      rw [if_pos whole] at second
      rw [orBit (by decide)] at first second
      grind
    · next huge =>
      rw [if_neg huge] at second
      grind
  · rintro ⟨first, second, huge⟩
    apply BitVec.eq_of_getLsbD_eq
    intro i inside
    rw [configuredBit inside]
    split
    · rw [orBit inside]
      grind
    · next noRoom =>
      obtain ⟨firstSet, secondSet⟩ := huge.resolve_left noRoom
      have sbEn : w.getLsbD 21 = cfg.sbEn := Bool.eq_iff_iff.mpr ⟨first, firstSet⟩
      have bootHo : w.getLsbD 22 = cfg.bootHo := Bool.eq_iff_iff.mpr ⟨second, secondSet⟩
      grind

theorem stopBit : cfg.stopCmd.getLsbD 6 = true := by
  unfold Config.stopCmd
  split <;> decide

theorem bootptrOther {w : BitVec 32} (bit : w.getLsbD 6 = true) : bootptrAddr ≠ w := by
  rintro rfl
  exact absurd bit (by decide)

end Bits

section Parsed

theorem prefixWords {ws : List (BitVec 32)} (front : ws.flatMap fullBytes <+: out) : ws <+: wordsFrom out := by
  obtain ⟨rest, rfl⟩ := front
  rw [wordsFulls]
  exact List.prefix_append _ _

theorem bodyLength (ws : List (BitVec 32)) (crc : BitVec 32) :
    (body cfg ws ++ fullBytes crc).length = 4 * ws.length + 16 + (copies cfg).length := by
  simp only [body, List.length_append, fullsLength, fullLength, List.length_cons, List.length_nil]
  omega

theorem configuredAppend (length : rcw.length = numRcwWord) (ws : List (BitVec 32)) :
    configuredRcw cfg rcw ++ ws = (rcw ++ ws).modify sbEnBootHoWord (configuredWord cfg) := by
  apply List.ext_getElem?
  intro i
  have inner : sbEnBootHoWord < rcw.length := by
    rw [length]
    decide
  rw [List.getElem?_modify, configuredRcw, List.getElem?_append, List.getElem?_append, List.length_modify,
    List.getElem?_modify]
  grind

variable (parsed : WellFormed cfg file rcw commands crc)
include parsed

theorem WellFormed.length : file.length = 4 * (numRcwWord + (commands.flatMap Command.words).length + 2) := by
  rw [parsed.words, fullsLength]
  simp only [List.length_append, parsed.rcw, List.length_cons, List.length_nil]

def searched (file : List Byte) (rcw : List (BitVec 32)) (commands : List Command) : List (BitVec 32) :=
  (if HasRcw file then [] else rcw) ++ commands.flatMap Command.words

theorem WellFormed.scanned : scanned garbage file = searched file rcw commands ++ [cfg.stopCmd, crc] := by
  have whole (ws : List (BitVec 32)) (some : 1 ≤ ws.length) : scan garbage (ws.flatMap fullBytes) = ws := by
    have back := wordsFulls ws []
    rw [List.append_nil] at back
    unfold scan
    rw [fullsLength, if_pos (by omega), back]
    exact List.append_nil ws
  unfold PbiCreation.scanned searched
  split
  · have front : (rcw.flatMap fullBytes).length = 4 * numRcwWord := by rw [fullsLength, parsed.rcw]
    rw [parsed.words, List.append_assoc, List.flatMap_append, List.drop_left' front, List.nil_append]
    exact whole _ (by simp)
  · rw [parsed.words]
    refine whole _ ?_
    simp only [List.length_append, List.length_cons]
    omega

theorem WellFormed.head : head cfg file =
    (if HasRcw file then rcw.modify sbEnBootHoWord (orBits cfg) else []).flatMap fullBytes := by
  unfold PbiCreation.head
  split
  · have set : rcw.mapIdx (fun k w => if 0 + k = sbEnBootHoWord then orBits cfg w else w) =
        rcw.modify sbEnBootHoWord (orBits cfg) := by
      apply List.ext_getElem?
      intro i
      rw [List.getElem?_mapIdx, List.getElem?_modify]
      grind
    rw [← parsed.rcw, parsed.words, List.append_assoc, List.flatMap_append, rcwWordsFulls, set]
  · rfl

def writtenWords (cfg : Config) (garbage : BitVec 32) (file : List Byte) (rcw : List (BitVec 32)) : List (BitVec 32) :=
  (if HasRcw file then rcw.modify sbEnBootHoWord (orBits cfg) else []) ++ copied garbage cfg file

theorem WellFormed.created (configured : Configured cfg) : createPbiTa2 garbage cfg file =
    addApImg cfg (images cfg) (body cfg (writtenWords cfg garbage file rcw) ++
      fullBytes (pbiCrc (body cfg (writtenWords cfg garbage file rcw)))) := by
  have found : cfg.stopCmd ∈ PbiCreation.scanned garbage file := by
    rw [parsed.scanned]
    simp
  have joined : PbiCreation.head cfg file ++ body cfg (copied garbage cfg file) =
      body cfg (writtenWords cfg garbage file rcw) := by
    rw [parsed.head]
    simp only [body, writtenWords, List.flatMap_append, List.append_assoc]
  rw [PbiCreation.created configured, if_pos found, joined]

omit parsed in
theorem modifySame (f g : BitVec 32 → BitVec 32) (ws : List (BitVec 32)) (i : Nat) :
    ws.modify i f = ws.modify i g ↔ ∀ w ∈ ws[i]?, f w = g w := by
  constructor
  · intro same w member
    have at_ := congrArg (·[i]?) same
    simp only [List.getElem?_modify_eq, Option.mem_def.mp member] at at_
    exact Option.some.inj at_
  · intro same
    apply List.ext_getElem?
    intro j
    rw [List.getElem?_modify, List.getElem?_modify]
    split
    · next here =>
      subst here
      cases word : ws[i]? with
      | none => rfl
      | some w => exact congrArg some (same w word)
    · rfl

theorem WellFormed.allWritten (absent : cfg.stopCmd ∉ searched file rcw commands) :
    writtenWords cfg garbage file rcw =
      rcw.modify sbEnBootHoWord (writtenWord cfg file) ++ commands.flatMap Command.words := by
  have others : ∀ w ∈ searched file rcw commands, decide (w ≠ cfg.stopCmd) = true := by
    intro w member
    exact decide_eq_true fun same => absent (same ▸ member)
  have all : copied garbage cfg file = searched file rcw commands := by
    rw [copied, parsed.scanned, List.takeWhile_append_of_pos others]
    simp
  rw [writtenWords, all, searched]
  unfold writtenWord
  by_cases room : HasRcw file
  · simp only [if_pos room, List.nil_append]
  · simp only [if_neg room, List.nil_append]
    congr 1
    exact (List.modify_id sbEnBootHoWord rcw).symm

theorem WellFormed.endsEarly (garbage : BitVec 32) (found : cfg.stopCmd ∈ searched file rcw commands) : ∃ before after,
    rcw ++ commands.flatMap Command.words = before ++ cfg.stopCmd :: after ∧
      (writtenWords cfg garbage file rcw).length = before.length := by
  obtain ⟨first, after, parts, absent⟩ := List.eq_append_cons_of_mem found
  have others : ∀ w ∈ first, decide (w ≠ cfg.stopCmd) = true := by
    intro w member
    exact decide_eq_true fun same => absent (same ▸ member)
  have some : copied garbage cfg file = first := by
    rw [copied, parsed.scanned, parts, List.append_assoc, List.takeWhile_append_of_pos others]
    simp
  refine ⟨(if HasRcw file then rcw else []) ++ first, after, ?_, ?_⟩
  · rw [List.append_assoc, ← parts, searched]
    split <;> simp
  · rw [writtenWords, some, List.length_append, List.length_append]
    split <;> simp

theorem WellFormed.neverEarly (written : (writtenWords cfg garbage file rcw ++ [bootptrAddr, cfg.boot1Ptr]) <+:
      wordsFrom out)
    (required : (configuredRcw cfg rcw ++ commands.flatMap Command.words ++ [bootptrAddr, cfg.boot1Ptr]) <+:
      wordsFrom out) : cfg.stopCmd ∉ searched file rcw commands := by
  intro found
  obtain ⟨before, after, parts, length⟩ := parsed.endsEarly garbage found
  have first : (wordsFrom out)[before.length]? = some bootptrAddr := by
    obtain ⟨rest, same⟩ := written
    rw [← same, ← length]
    simp
  have second : (wordsFrom out)[before.length]? = some (if before.length = sbEnBootHoWord
      then configuredWord cfg cfg.stopCmd else cfg.stopCmd) := by
    obtain ⟨rest, same⟩ := required
    have inside : before.length < (rcw ++ commands.flatMap Command.words).length := by
      rw [parts]
      simp
    rw [← same, configuredAppend parsed.rcw, List.append_assoc, List.getElem?_append_left (by simpa using inside),
      List.getElem?_modify, parts, List.getElem?_append_right (Nat.le_refl _), Nat.sub_self]
    simp only [List.getElem?_cons_zero]
    grind
  rw [first, Option.some.injEq] at second
  refine bootptrOther ?_ second
  split
  · rw [configuredBit (by decide)]
    exact stopBit
  · exact stopBit

end Parsed

section Exactly

structure Kept (cfg : Config) (file : List Byte) (rcw : List (BitVec 32)) (commands : List Command) : Prop where
  bits : ∀ word ∈ rcw[sbEnBootHoWord]?, BitsKept cfg file word
  stop : cfg.stopCmd ∉ searched file rcw commands
  images : Near cfg (images cfg) (file.length + 8 + (copies cfg).length)

theorem Kept.written (parsed : WellFormed cfg file rcw commands crc) (kept : Kept cfg file rcw commands) :
    writtenWords cfg garbage file rcw = configuredRcw cfg rcw ++ commands.flatMap Command.words := by
  rw [parsed.allWritten kept.stop, configuredRcw]
  congr 1
  refine (modifySame _ _ rcw _).mpr fun word member => ?_
  exact (writtenConfigured word).mpr (kept.bits word member)

theorem rewrittenExactly (garbage : BitVec 32) (parsed : WellFormed cfg file rcw commands crc)
    (added : addApImg cfg (images cfg) (body cfg (writtenWords cfg garbage file rcw) ++
      fullBytes (pbiCrc (body cfg (writtenWords cfg garbage file rcw)))) = some out) :
    Rewritten cfg rcw commands out ↔ Kept cfg file rcw commands := by
  have length : (configuredRcw cfg rcw ++ commands.flatMap Command.words).length + 2 = file.length / 4 := by
    rw [parsed.length, List.length_append, configuredRcw, List.length_modify, parsed.rcw]
    omega
  have place : 4 * (configuredRcw cfg rcw ++ commands.flatMap Command.words).length + 16 + (copies cfg).length =
      file.length + 8 + (copies cfg).length := by
    have size := parsed.length
    omega
  constructor
  · rintro ⟨crc', _, placed⟩
    have front (ws : List (BitVec 32)) (crc : BitVec 32) (result : List Byte)
        (inside : body cfg ws ++ fullBytes crc <+: result) : (ws ++ [bootptrAddr, cfg.boot1Ptr]) <+: wordsFrom result := by
      apply prefixWords
      refine List.IsPrefix.trans ?_ inside
      unfold body
      rw [List.append_assoc, List.append_assoc]
      exact List.prefix_append _ _
    have written := front _ _ _ (addPrefix _ added)
    have required := front _ _ _ (placedPrefix _ placed)
    have absent := parsed.neverEarly written required
    rw [parsed.allWritten absent] at written added
    have same : rcw.modify sbEnBootHoWord (writtenWord cfg file) ++ commands.flatMap Command.words =
        configuredRcw cfg rcw ++ commands.flatMap Command.words := by
      have sizes : (rcw.modify sbEnBootHoWord (writtenWord cfg file) ++ commands.flatMap Command.words).length =
          (configuredRcw cfg rcw ++ commands.flatMap Command.words).length := by
        simp only [List.length_append, configuredRcw, List.length_modify]
      have equal := List.prefix_of_prefix_length_le written required (by simp only [List.length_append] at *; omega)
      exact List.append_cancel_right (equal.eq_of_length (by simp only [List.length_append] at *; omega))
    rw [same] at added
    refine ⟨fun word member => ?_, absent, ?_⟩
    · have words := List.append_cancel_right same
      exact (writtenConfigured word).mp ((modifySame _ _ rcw _).mp words word member)
    · have near := placedNear _ added placed (by rw [bodyLength, bodyLength])
      rwa [bodyLength, place] at near
  · intro kept
    rw [kept.written parsed] at added
    have near := kept.images
    rw [← place, ← bodyLength _ (pbiCrc (body cfg (configuredRcw cfg rcw ++ commands.flatMap Command.words)))] at near
    obtain ⟨result, made, placed⟩ := nearPlaced _ _ near
    rw [added] at made
    cases made
    exact ⟨_, stopResidue _, placed⟩

theorem notRejected (parsed : WellFormed cfg file rcw commands crc)
    (fits : Fits cfg (images cfg) (file.length + 8 + (copies cfg).length)) :
    ¬ Rejects cfg (images cfg) (body cfg (writtenWords cfg garbage file rcw) ++
      fullBytes (pbiCrc (body cfg (writtenWords cfg garbage file rcw)))).length := by
  refine fitsKept _ fits ?_
  have few : (writtenWords cfg garbage file rcw).length ≤ numRcwWord + (commands.flatMap Command.words).length := by
    by_cases found : cfg.stopCmd ∈ searched file rcw commands
    · obtain ⟨before, after, parts, length⟩ := parsed.endsEarly garbage found
      have whole := congrArg List.length parts
      simp only [List.length_append, List.length_cons, parsed.rcw] at whole
      omega
    · rw [parsed.allWritten found, List.length_append, List.length_modify, parsed.rcw]
  rw [bodyLength, parsed.length]
  omega

end Exactly

theorem headLength : (head cfg file).length = if HasRcw file then 4 * numRcwWord else 0 := by
  unfold head
  split
  · next room => exact (rcwWordsLeft numRcwWord 0 file (room.trans (Nat.mod_le _ _))).1
  · rfl

theorem createdNone (configured : Configured cfg) : createPbiTa2 garbage cfg file = none ↔
    cfg.stopCmd ∉ scanned garbage file ∨ Rejects cfg (images cfg) (writtenLength garbage cfg file) := by
  have length : (head cfg file ++ body cfg (copied garbage cfg file) ++
      fullBytes (pbiCrc (head cfg file ++ body cfg (copied garbage cfg file)))).length =
      writtenLength garbage cfg file := by
    rw [List.append_assoc, List.length_append, bodyLength, headLength, writtenLength]
    omega
  rw [created configured]
  by_cases found : cfg.stopCmd ∈ scanned garbage file
  · rw [if_pos found, addNone, length]
    exact ⟨.inr, fun either => either.resolve_left (absurd found)⟩
  · rw [if_neg found]
    exact iff_of_true rfl (.inl found)

theorem Meets.exactly (garbage : BitVec 32) (cfg : Config) (file : List Byte) : Meets garbage cfg file ↔
    (Configured cfg → cfg.stopCmd ∉ scanned garbage file ∨ Rejects cfg (images cfg) (writtenLength garbage cfg file) ∨
      (∃ rcw commands crc, WellFormed cfg file rcw commands crc) ∧
        ∀ rcw commands crc, WellFormed cfg file rcw commands crc → Kept cfg file rcw commands) := by
  constructor
  · intro meets configured
    obtain ⟨rewritten, refused⟩ := meets configured
    cases made : createPbiTa2 garbage cfg file with
    | none => exact or_assoc.mp (.inl ((createdNone configured).mp made))
    | some out =>
      refine .inr (.inr ⟨?_, fun rcw commands crc parsed => ?_⟩)
      · by_contra malformed
        rw [refused malformed] at made
        cases made
      · have added := made
        rw [parsed.created configured] at added
        exact (rewrittenExactly garbage parsed added).mp ((rewritten rcw commands crc parsed).1 out made)
  · intro condition configured
    refine ⟨fun rcw commands crc parsed => ⟨fun out made => ?_, fun fits => ?_⟩, fun malformed => ?_⟩
    · have added := made
      rw [parsed.created configured] at added
      rcases or_assoc.mpr (condition configured) with ended | ⟨_, kept⟩
      · rw [(createdNone configured).mpr ended] at made
        cases made
      · exact (rewrittenExactly garbage parsed added).mpr (kept rcw commands crc parsed)
    · rw [parsed.created configured, Option.isSome_iff_ne_none, Ne, addNone]
      exact notRejected parsed fits
    · rcases or_assoc.mpr (condition configured) with ended | ⟨wellFormed, _⟩
      · exact (createdNone configured).mpr ended
      · exact absurd wellFormed malformed

section Instances

def plain : Config where
  sbenFlag := true
  boothoFlag := true
  sbEn := false
  bootHo := false
  boot1Ptr := 0x1000
  powerpc := false
  sdBoot := false
  cpCmds := some []
  apFiles := some []

def stopWritten : Command := ⟨0x09570600, [crcStopCmdArm]⟩

def stopFront : List Byte :=
  (List.replicate numRcwWord 0 ++ stopWritten.words ++ [plain.stopCmd]).flatMap fullBytes

def stopFile : List Byte := stopFront ++ fullBytes (pbiCrc stopFront)

theorem Meets.notAlways : ¬ ∀ garbage cfg file, Meets garbage cfg file := by
  intro always
  have parsed : WellFormed plain stopFile (List.replicate numRcwWord 0) [stopWritten] (pbiCrc stopFront) := by
    refine ⟨?_, by decide, by decide, stopResidue stopFront⟩
    simp [stopFile, stopFront, List.flatMap_append, List.append_assoc]
  have configured : Configured plain := ⟨rfl, rfl, by decide, rfl, rfl⟩
  have made := @WellFormed.created _ 0 _ _ _ _ parsed configured
  have rewritten := ((always 0 plain stopFile configured).1 _ _ _ parsed).1 _ made
  have kept := (rewrittenExactly 0 parsed rfl).mp rewritten
  exact kept.stop (by simp [searched, stopWritten, Command.words, plain, Config.stopCmd])

end Instances
end Flexbuild.PbiCreation
