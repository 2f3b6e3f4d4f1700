import Flexbuild.PbiScanned
import Mathlib.Algebra.Order.BigOperators.Group.List

/-! When the rewriting keeps what it is given. The two bits are only ever set, the copy stops at the
first word that equals the stop command wherever it stands, and a gap of half the range of an
`int` or more is not filled. -/
namespace Flexbuild.PbiCreation
open ByteMemory (Byte)
open Fields (fullBytes)
open PbiCopy (byteSwap32 fwriteWord CpCmd addCpyCmd)

variable {cfg : Config} {garbage : BitVec 32} {file : List Byte} {files : List ApFile} {out result : List Byte}
  {len : Nat}

section Images

def Rejects (cfg : Config) : List ApFile → Nat → Prop
  | [], _ => False
  | f :: rest, len => imageOffset cfg f < BitVec.ofNat 32 len ∨
      Rejects cfg rest (len + (imageOffset cfg f - BitVec.ofNat 32 len).toInt.toNat + f.image.length)

def Near (cfg : Config) : List ApFile → Nat → Prop
  | [], _ => True
  | f :: rest, len => (len : Int) ≤ requested cfg f ∧ requested cfg f - len < 2 ^ 31 ∧
      Near cfg rest ((requested cfg f).toNat + f.image.length)

theorem paddingFilled (j : Nat) : padding j = List.replicate j 0xFF := by
  induction j using padding.induct with
  | case1 j positive later =>
    have whole : min j bufferSize + (j - bufferSize) = j := by
      generalize bufferSize = size
      omega
    rw [padding, if_pos positive, later, List.replicate_append_replicate, whole]
  | case2 j none =>
    rw [padding, if_neg none]
    rw [show j = 0 by omega]
    rfl

theorem requestedOffset {f : ApFile} (behind : 0 ≤ requested cfg f) :
    ((imageOffset cfg f).toNat : Int) = requested cfg f := by
  unfold requested imageOffset at *
  split at behind
  · next sd =>
    rw [if_pos sd, if_pos sd]
    have enough : apndImgOff ≤ f.offset := by
      rw [BitVec.le_def]
      simp only [apndImgOff, BitVec.reduceToNat]
      omega
    rw [BitVec.toNat_sub_of_le enough]
    simp only [apndImgOff, BitVec.reduceToNat]
    omega
  · next plain =>
    rw [if_neg plain, if_neg plain]
    omega

theorem gapFilled {f : ApFile} (behind : (len : Int) ≤ requested cfg f) :
    ¬ imageOffset cfg f < BitVec.ofNat 32 len ∧
    (imageOffset cfg f - BitVec.ofNat 32 len).toInt.toNat =
      if requested cfg f - len < 2 ^ 31 then (requested cfg f).toNat - len else 0 := by
  have place := requestedOffset (show 0 ≤ requested cfg f by omega)
  have bound := (imageOffset cfg f).isLt
  have size : (BitVec.ofNat 32 len).toNat = len := by
    rw [BitVec.toNat_ofNat]
    exact Nat.mod_eq_of_lt (by omega)
  have before : BitVec.ofNat 32 len ≤ imageOffset cfg f := by
    rw [BitVec.le_def, size]
    omega
  refine ⟨by rw [BitVec.lt_def, size]; omega, ?_⟩
  rw [BitVec.toInt_eq_toNat_cond, BitVec.toNat_sub_of_le before, size]
  split <;> split <;> omega

theorem addNone (files : List ApFile) : ∀ out, addApImg cfg files out = none ↔ Rejects cfg files out.length := by
  induction files with
  | nil => exact fun _ => iff_of_false (by simp [addApImg]) id
  | cons f rest later =>
    intro out
    simp only [addApImg, Rejects]
    split
    · next refused => exact iff_of_true rfl (.inl refused)
    · next kept =>
      rw [later, or_iff_right kept, List.length_append, List.length_append, paddingFilled, List.length_replicate]

theorem nearPlaced (files : List ApFile) : ∀ out, Near cfg files out.length →
    ∃ result, addApImg cfg files out = some result ∧ Placed cfg files out result := by
  induction files with
  | nil => exact fun out _ => ⟨out, rfl, rfl⟩
  | cons f rest later =>
    intro out ⟨behind, close, others⟩
    obtain ⟨kept, gap⟩ := gapFilled behind
    rw [if_pos close] at gap
    have length : (out ++ List.replicate ((requested cfg f).toNat - out.length) 0xFF ++ f.image).length =
        (requested cfg f).toNat + f.image.length := by
      simp only [List.length_append, List.length_replicate]
      omega
    obtain ⟨result, added, placed⟩ := later _ (length ▸ others)
    refine ⟨result, ?_, _, ?_, placed⟩
    · simp only [addApImg]
      rw [if_neg kept, gap, paddingFilled]
      exact added
    · omega

theorem fitsKept (files : List ApFile) : ∀ {len len' : Nat}, Fits cfg files len → len' ≤ len →
    ¬ Rejects cfg files len' := by
  induction files with
  | nil => exact fun _ _ no => no
  | cons f rest later =>
    rintro len len' ⟨behind, others⟩ shorter
    obtain ⟨kept, gap⟩ := @gapFilled cfg len' f (by omega)
    rintro (refused | no)
    · exact kept refused
    · refine later others ?_ no
      rw [gap]
      split <;> omega

theorem farBehind (files : List ApFile) : ∀ {out out' result result' : List Byte},
    addApImg cfg files out = some result → Placed cfg files out' result' →
      out.length + 2 ^ 31 ≤ out'.length → result.length + 2 ^ 31 ≤ result'.length := by
  induction files with
  | nil =>
    rintro out out' result result' ⟨⟩ rfl far
    exact far
  | cons f rest later =>
    rintro out out' result result' added ⟨gap, place, placed⟩ far
    obtain ⟨kept, filled⟩ := @gapFilled cfg out.length f (by omega)
    rw [if_neg (by omega)] at filled
    simp only [addApImg] at added
    rw [if_neg kept, filled, paddingFilled] at added
    refine later added placed ?_
    simp only [List.length_append, List.length_replicate]
    omega

theorem placedNear (files : List ApFile) : ∀ {out out' result : List Byte}, addApImg cfg files out = some result →
    Placed cfg files out' result → out.length = out'.length → Near cfg files out.length := by
  induction files with
  | nil => exact fun _ _ _ => trivial
  | cons f rest later =>
    rintro out out' result added ⟨gap, place, placed⟩ same
    have behind : (out.length : Int) ≤ requested cfg f := by omega
    obtain ⟨kept, filled⟩ := gapFilled behind
    simp only [addApImg] at added
    rw [if_neg kept, filled, paddingFilled] at added
    by_cases close : requested cfg f - out.length < 2 ^ 31
    · rw [if_pos close] at added
      have next := later added placed (by simp only [List.length_append, List.length_replicate]; omega)
      refine ⟨behind, close, ?_⟩
      simp only [List.length_append, List.length_replicate] at next
      rwa [show (requested cfg f).toNat + f.image.length =
        out.length + ((requested cfg f).toNat - out.length) + f.image.length by omega]
    · rw [if_neg close] at added
      have far := farBehind rest added placed (by simp only [List.length_append, List.length_replicate]; omega)
      omega

theorem addPrefix (files : List ApFile) : ∀ {out result}, addApImg cfg files out = some result → out <+: result := by
  induction files with
  | nil =>
    rintro out result ⟨⟩
    exact List.prefix_rfl
  | cons f rest later =>
    intro out result added
    rw [addApImg] at added
    split at added
    · cases added
    · have front := later added
      rw [List.append_assoc] at front
      exact (List.prefix_append _ _).trans front

theorem placedPrefix (files : List ApFile) : ∀ {out result}, Placed cfg files out result → out <+: result := by
  induction files with
  | nil =>
    rintro out result rfl
    exact List.prefix_rfl
  | cons f rest later =>
    rintro out result ⟨gap, _, placed⟩
    have front := later placed
    rw [List.append_assoc] at front
    exact (List.prefix_append _ _).trans front

end Images

section Rewriting

def HasRcw (file : List Byte) : Prop := 4 * numRcwWord ≤ file.length % 2 ^ 32

instance (file : List Byte) : Decidable (HasRcw file) := inferInstanceAs (Decidable (_ ≤ _))

def scan (garbage : BitVec 32) (rest : List Byte) : List (BitVec 32) :=
  if 4 ≤ rest.length then wordsFrom rest else [byteSwap32 (firstWord garbage rest).1]

def scanned (garbage : BitVec 32) (file : List Byte) : List (BitVec 32) :=
  scan garbage (if HasRcw file then file.drop (4 * numRcwWord) else file)

def copied (garbage : BitVec 32) (cfg : Config) (file : List Byte) : List (BitVec 32) :=
  (scanned garbage file).takeWhile (· ≠ cfg.stopCmd)

def writtenLength (garbage : BitVec 32) (cfg : Config) (file : List Byte) : Nat :=
  (if HasRcw file then 4 * numRcwWord else 0) + 4 * (copied garbage cfg file).length + 16 + (copies cfg).length

def head (cfg : Config) (file : List Byte) : List Byte :=
  if HasRcw file then (rcwWords cfg numRcwWord 0 file).1 else []

theorem scanCopied (stop : BitVec 32) (rest : List Byte) :
    copyWords stop (firstWord garbage rest).1 (firstWord garbage rest).2 =
      if stop ∈ scan garbage rest then some (((scan garbage rest).takeWhile (· ≠ stop)).flatMap fullBytes) else none := by
  rw [copyWordsScan]
  unfold scan
  match rest with
  | [] | [_] | [_, _] | [_, _, _] => rfl
  | b₀ :: b₁ :: b₂ :: b₃ :: rest =>
    have enough : 4 ≤ (b₀ :: b₁ :: b₂ :: b₃ :: rest).length := by
      simp only [List.length_cons]
      omega
    rw [if_pos enough, wordsFrom, firstWord, swappedWord]

theorem copiesMade (cmds : List CpCmd) : ∃ bytes, addCpyCmds cmds = some bytes := by
  obtain ⟨bytes, made, _⟩ := PbiCopy.copiesImages cmds
  refine ⟨bytes, made _ fun c member => Nat.lt_succ_of_le ?_⟩
  exact List.le_sum_of_mem (List.mem_map_of_mem member)

theorem created (configured : Configured cfg) : createPbiTa2 garbage cfg file =
    if cfg.stopCmd ∈ scanned garbage file then
      addApImg cfg (images cfg)
        (head cfg file ++ body cfg (copied garbage cfg file) ++
          fullBytes (pbiCrc (head cfg file ++ body cfg (copied garbage cfg file))))
    else none := by
  obtain ⟨sbenFlag, boothoFlag, boot1Ptr, cmdsRead, filesRead⟩ := configured
  obtain ⟨cmds, isCmds⟩ := Option.isSome_iff_exists.mp cmdsRead
  obtain ⟨apFiles, isFiles⟩ := Option.isSome_iff_exists.mp filesRead
  obtain ⟨bytes, made⟩ := copiesMade cmds
  have bootptr : getBootptr cfg = some (fullBytes bootptrAddr ++ fullBytes cfg.boot1Ptr) := by
    unfold getBootptr
    rw [if_pos, PbiCopy.fwriteSwapped, PbiCopy.fwriteSwapped]
    intro zero
    have back := swapTwice cfg.boot1Ptr
    rw [zero] at back
    exact boot1Ptr (back.symm.trans (by decide))
  have copiesAre : copies cfg = bytes := by simp [copies, isCmds, made]
  have imagesAre : images cfg = apFiles := by simp [images, isFiles]
  have rcw : rcwSbenBootHo cfg file = some (head cfg file, if HasRcw file then file.drop (4 * numRcwWord) else file) := by
    unfold rcwSbenBootHo head
    rw [sbenFlag, boothoFlag, if_neg (by simp), if_neg (by simp)]
    have size : BitVec.ofNat 32 file.length < BitVec.ofNat 32 (4 * numRcwWord) ↔ ¬ HasRcw file := by
      rw [BitVec.lt_def, BitVec.toNat_ofNat, BitVec.toNat_ofNat, HasRcw, Nat.not_le]
      simp [numRcwWord]
    by_cases whole : HasRcw file
    · have long : 4 * numRcwWord ≤ file.length := whole.trans (Nat.mod_le _ _)
      rw [if_neg (fun less => size.mp less whole), if_pos whole, if_pos whole, ← (rcwWordsLeft numRcwWord 0 file long).2]
    · rw [if_pos (size.mpr whole), if_neg whole, if_neg whole]
  unfold createPbiTa2
  rw [rcw, Option.bind_some]
  dsimp only
  rw [scanCopied, bootptr, isCmds, isFiles]
  change (if cfg.stopCmd ∈ scanned garbage file then _ else _ : Option _).bind _ = _
  by_cases found : cfg.stopCmd ∈ scanned garbage file
  · rw [if_pos found, if_pos found]
    simp only [Option.bind_some, made, addPbiStopCmd, PbiCopy.fwriteSwapped, imagesAre, body, copiesAre]
    simp only [copied, scanned, List.flatMap_append, List.flatMap_cons, List.flatMap_nil, List.append_nil,
      List.append_assoc]
  · rw [if_neg found, if_neg found]
    rfl

end Rewriting
end Flexbuild.PbiCreation
