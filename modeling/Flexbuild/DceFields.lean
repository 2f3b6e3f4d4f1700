import Flexbuild.DceAccessors
import Mathlib.Data.Fintype.Defs
import Mathlib.Data.Fintype.OfMap

/-! The fields of the stream context record, in its two cache lines, and those of the frame context word of a
request. -/
namespace Flexbuild.DceAccessors
open Accessors

def codeBp2acBmt : DceAttrCode := ⟨2, 31, 1⟩
def codeBp2acBpid : DceAttrCode := ⟨2, 16, 14⟩
def codeBp2acPbs : DceAttrCode := ⟨2, 6, 10⟩
def codeBp1acBmt : DceAttrCode := ⟨3, 31, 1⟩
def codeBp1acBpid : DceAttrCode := ⟨3, 16, 14⟩
def codeBp1acPbs : DceAttrCode := ⟨3, 6, 10⟩
def codeNextFlcLo : DceAttrCode := ⟨4, 0, 32⟩
def codeNextFlcHi : DceAttrCode := ⟨5, 0, 32⟩
def codeExtraPtrLo : DceAttrCode := ⟨8, 0, 32⟩
def codeExtraPtrHi : DceAttrCode := ⟨9, 0, 32⟩
def codePendingOutputPtrLo : DceAttrCode := ⟨10, 0, 32⟩
def codePendingOutputPtrHi : DceAttrCode := ⟨11, 0, 32⟩
def codeHistoryPtrLo : DceAttrCode := ⟨12, 6, 26⟩
def codeHistoryPtrHi : DceAttrCode := ⟨13, 0, 32⟩
def codeTotalIn : DceAttrCode := ⟨0, 0, 32⟩
def codeTotalOut : DceAttrCode := ⟨1, 0, 32⟩
def codeAdler32 : DceAttrCode := ⟨2, 0, 32⟩
def codePmode : DceAttrCode := ⟨3, 31, 1⟩
def codeFlg : DceAttrCode := ⟨4, 0, 8⟩
def codeCm : DceAttrCode := ⟨4, 8, 8⟩
def codeId2 : DceAttrCode := ⟨4, 16, 8⟩
def codeId1 : DceAttrCode := ⟨4, 24, 8⟩
def codeMtime : DceAttrCode := ⟨5, 0, 32⟩
def codeXlen : DceAttrCode := ⟨6, 0, 16⟩
def codeOs : DceAttrCode := ⟨6, 16, 8⟩
def codeXfl : DceAttrCode := ⟨6, 24, 8⟩
def codeClen : DceAttrCode := ⟨7, 0, 16⟩
def codeNlen : DceAttrCode := ⟨7, 16, 16⟩

def scfCCfgSetBp2acBmt (d : Words) (enable : Word) : Words := dceAttrCodeEncode codeBp2acBmt dceCl d (flag enable)
def scfCCfgGetBp2acBmt (d : Words) : Word := dceAttrCodeDecode codeBp2acBmt dceCl d
def scfCCfgSetBp2acBpid (d : Words) (bp2acBpid : Word) : Words := dceAttrCodeEncode codeBp2acBpid dceCl d bp2acBpid
def scfCCfgGetBp2acBpid (d : Words) : Word := dceAttrCodeDecode codeBp2acBpid dceCl d
def scfCCfgSetBp2acPbs (d : Words) (bp2acPbs : Word) : Words := dceAttrCodeEncode codeBp2acPbs dceCl d bp2acPbs
def scfCCfgGetBp2acPbs (d : Words) : Word := dceAttrCodeDecode codeBp2acPbs dceCl d
def scfCCfgSetBp1acBmt (d : Words) (enable : Word) : Words := dceAttrCodeEncode codeBp1acBmt dceCl d (flag enable)
def scfCCfgGetBp1acBmt (d : Words) : Word := dceAttrCodeDecode codeBp1acBmt dceCl d
def scfCCfgSetBp1acBpid (d : Words) (bp1acBpid : Word) : Words := dceAttrCodeEncode codeBp1acBpid dceCl d bp1acBpid
def scfCCfgGetBp1acBpid (d : Words) : Word := dceAttrCodeDecode codeBp1acBpid dceCl d
def scfCCfgSetBp1acPbs (d : Words) (bp1acPbs : Word) : Words := dceAttrCodeEncode codeBp1acPbs dceCl d bp1acPbs
def scfCCfgGetBp1acPbs (d : Words) : Word := dceAttrCodeDecode codeBp1acPbs dceCl d
def scfCCfgSetNextFlc (d : Words) (addr : Long) : Words := dceAttrCodeEncode64 codeNextFlcLo dceCl d addr
def scfCCfgGetNextFlc (d : Words) : Long := decode64 codeNextFlcHi codeNextFlcLo dceCl d
def scfCCfgSetExtraPtr (d : Words) (addr : Long) : Words := dceAttrCodeEncode64 codeExtraPtrLo dceCl d addr
def scfCCfgGetExtraPtr (d : Words) : Long := decode64 codeExtraPtrHi codeExtraPtrLo dceCl d
def scfCCfgSetPendingOutputPtr (d : Words) (addr : Long) : Words :=
  dceAttrCodeEncode64 codePendingOutputPtrLo dceCl d addr
def scfCCfgGetPendingOutputPtr (d : Words) : Long := decode64 codePendingOutputPtrHi codePendingOutputPtrLo dceCl d
def scfCCfgSetHistoryPtr (d : Words) (addr : Long) : Words :=
  let d := dceAttrCodeEncode codeHistoryPtrLo dceCl d (lower32 addr >>> 6)
  dceAttrCodeEncode codeHistoryPtrHi dceCl d (upper32 addr)
def scfCCfgGetHistoryPtr (d : Words) : Long :=
  ((dceAttrCodeDecode codeHistoryPtrHi dceCl d).setWidth 64 <<< 32) |||
    (dceAttrCodeDecode codeHistoryPtrLo dceCl d <<< 6).setWidth 64
def scfCCfgSetTotalIn (d : Words) (totalIn : Word) : Words := dceAttrCodeEncode codeTotalIn dceCl2 d totalIn
def scfCCfgGetTotalIn (d : Words) : Word := dceAttrCodeDecode codeTotalIn dceCl2 d
def scfCCfgSetTotalOut (d : Words) (totalOut : Word) : Words := dceAttrCodeEncode codeTotalOut dceCl2 d totalOut
def scfCCfgGetTotalOut (d : Words) : Word := dceAttrCodeDecode codeTotalOut dceCl2 d
def scfCCfgSetAdler32 (d : Words) (adler32 : Word) : Words := dceAttrCodeEncode codeAdler32 dceCl2 d adler32
def scfCCfgGetAdler32 (d : Words) : Word := dceAttrCodeDecode codeAdler32 dceCl2 d
def scfCCfgSetPmode (d : Words) (pmode : Word) : Words := dceAttrCodeEncode codeBp2acBmt dceCl2 d pmode
def scfCCfgGetPmode (d : Words) : Word := dceAttrCodeDecode codePmode dceCl2 d
def scfCCfgSetFlg (d : Words) (flg : Word) : Words := dceAttrCodeEncode codeFlg dceCl2 d flg
def scfCCfgGetFlg (d : Words) : Word := dceAttrCodeDecode codeFlg dceCl2 d
def scfCCfgSetCm (d : Words) (cm : Word) : Words := dceAttrCodeEncode codeCm dceCl2 d cm
def scfCCfgGetCm (d : Words) : Word := dceAttrCodeDecode codeCm dceCl2 d
def scfCCfgSetId2 (d : Words) (id2 : Word) : Words := dceAttrCodeEncode codeId2 dceCl2 d id2
def scfCCfgGetId2 (d : Words) : Word := dceAttrCodeDecode codeId2 dceCl2 d
def scfCCfgSetId1 (d : Words) (id1 : Word) : Words := dceAttrCodeEncode codeId1 dceCl2 d id1
def scfCCfgGetId1 (d : Words) : Word := dceAttrCodeDecode codeId1 dceCl2 d
def scfCCfgSetMtime (d : Words) (mtime : Word) : Words := dceAttrCodeEncode codeMtime dceCl2 d mtime
def scfCCfgGetMtime (d : Words) : Word := dceAttrCodeDecode codeMtime dceCl2 d
def scfCCfgSetXlen (d : Words) (xlen : Word) : Words := dceAttrCodeEncode codeMtime dceCl2 d xlen
def scfCCfgGetXlen (d : Words) : Word := dceAttrCodeDecode codeXlen dceCl2 d
def scfCCfgSetOs (d : Words) (os : Word) : Words := dceAttrCodeEncode codeOs dceCl2 d os
def scfCCfgGetOs (d : Words) : Word := dceAttrCodeDecode codeOs dceCl2 d
def scfCCfgSetXfl (d : Words) (xfl : Word) : Words := dceAttrCodeEncode codeXfl dceCl2 d xfl
def scfCCfgGetXfl (d : Words) : Word := dceAttrCodeDecode codeXfl dceCl2 d
def scfCCfgSetClen (d : Words) (clen : Word) : Words := dceAttrCodeEncode codeClen dceCl2 d clen
def scfCCfgGetClen (d : Words) : Word := dceAttrCodeDecode codeClen dceCl2 d
def scfCCfgSetNlen (d : Words) (nlen : Word) : Words := dceAttrCodeEncode codeNlen dceCl2 d nlen
def scfCCfgGetNlen (d : Words) : Word := dceAttrCodeDecode codeNlen dceCl2 d

theorem decodeWhole (x : Word) : d32 0 32 x = x := by
  change (x >>> 0) &&& 0xffffffff = x
  rw [andWhole]
  exact BitVec.ushiftRight_zero x

theorem decodeWords {hi lo : DceAttrCode} {cl : Nat} (d : Words) (wholeHi : hi.lsoffset = 0 ∧ hi.width = 32)
    (wholeLo : lo.lsoffset = 0 ∧ lo.width = 32) :
    decode64 hi lo cl d = ((d (cl + hi.word)).setWidth 64 <<< 32) ||| (d (cl + lo.word)).setWidth 64 := by
  rw [decode64, dceAttrCodeDecode, dceAttrCodeDecode, wholeHi.1, wholeHi.2, wholeLo.1, wholeLo.2, decodeWhole,
    decodeWhole]

theorem alignedLow (v : Word) : e32 6 26 (v >>> 6) = v &&& 0xffffffc0 := by
  apply BitVec.eq_of_getLsbD_eq
  intro i small
  have mask : (0xffffffc0 : Word) = makeMask32 26 <<< 6 := by decide
  rw [e32, mask, BitVec.getLsbD_and, fieldBit (by decide), BitVec.getLsbD_shiftLeft, BitVec.getLsbD_and,
    BitVec.getLsbD_ushiftRight, maskBit (by decide)]
  by_cases after : 6 ≤ i
  · have back : 6 + (i - 6) = i := by omega
    have within : i - 6 < 26 := by omega
    have inField : i < 6 + 26 := by omega
    simp [after, back, within, inField]
  · have before : i < 6 := by omega
    simp [after, before]

theorem historySet (a : Long) (d : Words) : scfCCfgSetHistoryPtr d a =
    Function.update (Function.update d 12 ((d 12 &&& ~~~ 0xffffffc0) ||| (lower32 a &&& 0xffffffc0))) 13
      (upper32 a) := by
  have low : r32 6 26 (d 12) ||| e32 6 26 (lower32 a >>> 6) =
      (d 12 &&& ~~~ 0xffffffc0) ||| (lower32 a &&& 0xffffffc0) := by
    rw [alignedLow, r32, BitVec.and_comm, show makeMask32 26 <<< 6 = 0xffffffc0 by decide]
  have high (x v : Word) : r32 0 32 x ||| e32 0 32 v = v := by
    have none : r32 0 32 x = 0 := BitVec.zero_and
    have whole : e32 0 32 v = v := by
      rw [e32, show makeMask32 32 = 0xffffffff by decide, andWhole]
      exact BitVec.shiftLeft_zero v
    rw [none, whole]
    exact BitVec.zero_or
  change Function.update (Function.update d 12 (r32 6 26 (d 12) ||| e32 6 26 (lower32 a >>> 6))) 13
    (r32 0 32 _ ||| e32 0 32 (upper32 a)) = _
  rw [low, high]

theorem historyGet (d : Words) : scfCCfgGetHistoryPtr d =
    ((d 13).setWidth 64 <<< 32) ||| (d 12 &&& 0xffffffc0).setWidth 64 := by
  have high : dceAttrCodeDecode codeHistoryPtrHi dceCl d = d 13 := decodeWhole _
  have low : dceAttrCodeDecode codeHistoryPtrLo dceCl d <<< 6 = d 12 &&& 0xffffffc0 := alignedLow _
  rw [scfCCfgGetHistoryPtr, high, low]

def historyField : Accessor 32 where
  Arg := Long
  Val := Long
  set a d := scfCCfgSetHistoryPtr d a
  get := scfCCfgGetHistoryPtr
  norm _ a := a &&& ~~~ 63
  Ok _ := True
  clears := [(12, 0xffffffc0), (13, 0xffffffff)]
  puts := [(12, 0xffffffc0), (13, 0xffffffff)]
  sees := [(12, 0xffffffc0), (13, 0xffffffff)]
  depends := []
  put a w := if w = 12 then lower32 a &&& 0xffffffc0 else if w = 13 then upper32 a else 0
  acts := by
    intro a d w _
    rw [historySet, maskAtCons, singleMask]
    by_cases low : w = 12
    · subst low
      rw [Function.update_of_ne (by decide), Function.update_self]
      rfl
    · by_cases high : w = 13
      · subst high
        rw [Function.update_self]
        have none : d 13 &&& ~~~ 0xffffffff = 0 := BitVec.and_zero
        change upper32 a = (d 13 &&& ~~~ 0xffffffff) ||| upper32 a
        rw [none]
        exact BitVec.zero_or.symm
      · rw [Function.update_of_ne high, Function.update_of_ne low, if_neg (Ne.symm low), if_neg (Ne.symm high),
          if_neg low, if_neg high, untouched]
  within := by
    intro a w _
    rw [maskAtCons, singleMask]
    by_cases low : w = 12
    · subst low
      change (lower32 a &&& 0xffffffc0) &&& ~~~ 0xffffffc0 = 0
      rw [BitVec.and_assoc]
      exact BitVec.and_zero
    · by_cases high : w = 13
      · subst high
        exact BitVec.and_zero
      · rw [if_neg low, if_neg high]
        exact BitVec.zero_and
  reads := by
    intro r r' agree
    have low : r 12 &&& 0xffffffc0 = r' 12 &&& 0xffffffc0 := agree 12
    have high : r 13 &&& 0xffffffff = r' 13 &&& 0xffffffff := agree 13
    rw [andWhole, andWhole] at high
    rw [historyGet, historyGet, low, high]
  steady _ _ _ _ := rfl
  own := by
    intro a r _
    rw [historyGet, historySet, Function.update_self, Function.update_of_ne (by decide), Function.update_self]
    have kept : ((r 12 &&& ~~~ 0xffffffc0) ||| (lower32 a &&& 0xffffffc0)) &&& 0xffffffc0 =
        lower32 a &&& 0xffffffc0 := by
      rw [BitVec.and_or_distrib_right, BitVec.and_assoc, BitVec.and_assoc, BitVec.and_self]
      have none : r 12 &&& (~~~ 0xffffffc0 &&& 0xffffffc0) = 0 := BitVec.and_zero
      rw [none]
      exact BitVec.zero_or
    have high : upper32 (a &&& ~~~ 63) = upper32 a := by
      rw [upper32, BitVec.ushiftRight_and_distrib, BitVec.setWidth_and]
      exact andWhole _
    have low : lower32 (a &&& ~~~ 63) = lower32 a &&& 0xffffffc0 := BitVec.setWidth_and
    rw [kept, ← lowerUpper (a &&& ~~~ 63), high, low]

inductive ScfField where
  | bp2acBmt | bp2acBpid | bp2acPbs | bp1acBmt | bp1acBpid | bp1acPbs | nextFlc | extraPtr | pendingOutputPtr
  | historyPtr | totalIn | totalOut | adler32 | pmode | flg | cm | id2 | id1 | mtime | xlen | os | xfl | clen | nlen
  deriving DecidableEq, Repr

instance : Fintype ScfField := Fintype.ofList
  [.bp2acBmt, .bp2acBpid, .bp2acPbs, .bp1acBmt, .bp1acBpid, .bp1acPbs, .nextFlc, .extraPtr, .pendingOutputPtr,
    .historyPtr, .totalIn, .totalOut, .adler32, .pmode, .flg, .cm, .id2, .id1, .mtime, .xlen, .os, .xfl, .clen,
    .nlen]
  (by intro field; cases field <;> decide)

def scf : ScfField → Accessor 32
  | .bp2acBmt => flagField codeBp2acBmt dceCl scfCCfgSetBp2acBmt scfCCfgGetBp2acBmt
  | .bp2acBpid => valueField codeBp2acBpid dceCl scfCCfgSetBp2acBpid scfCCfgGetBp2acBpid
  | .bp2acPbs => valueField codeBp2acPbs dceCl scfCCfgSetBp2acPbs scfCCfgGetBp2acPbs
  | .bp1acBmt => flagField codeBp1acBmt dceCl scfCCfgSetBp1acBmt scfCCfgGetBp1acBmt
  | .bp1acBpid => valueField codeBp1acBpid dceCl scfCCfgSetBp1acBpid scfCCfgGetBp1acBpid
  | .bp1acPbs => valueField codeBp1acPbs dceCl scfCCfgSetBp1acPbs scfCCfgGetBp1acPbs
  | .nextFlc => wholeWords 5 4 scfCCfgSetNextFlc scfCCfgGetNextFlc (fun _ _ => rfl)
      fun d => decodeWords d (by decide) (by decide)
  | .extraPtr => wholeWords 9 8 scfCCfgSetExtraPtr scfCCfgGetExtraPtr (fun _ _ => rfl)
      fun d => decodeWords d (by decide) (by decide)
  | .pendingOutputPtr => wholeWords 11 10 scfCCfgSetPendingOutputPtr scfCCfgGetPendingOutputPtr (fun _ _ => rfl)
      fun d => decodeWords d (by decide) (by decide)
  | .historyPtr => historyField
  | .totalIn => valueField codeTotalIn dceCl2 scfCCfgSetTotalIn scfCCfgGetTotalIn
  | .totalOut => valueField codeTotalOut dceCl2 scfCCfgSetTotalOut scfCCfgGetTotalOut
  | .adler32 => valueField codeAdler32 dceCl2 scfCCfgSetAdler32 scfCCfgGetAdler32
  | .pmode => strayField codePmode dceCl2 scfCCfgSetPmode scfCCfgGetPmode
  | .flg => valueField codeFlg dceCl2 scfCCfgSetFlg scfCCfgGetFlg
  | .cm => valueField codeCm dceCl2 scfCCfgSetCm scfCCfgGetCm
  | .id2 => valueField codeId2 dceCl2 scfCCfgSetId2 scfCCfgGetId2
  | .id1 => valueField codeId1 dceCl2 scfCCfgSetId1 scfCCfgGetId1
  | .mtime => valueField codeMtime dceCl2 scfCCfgSetMtime scfCCfgGetMtime
  | .xlen => strayField codeXlen dceCl2 scfCCfgSetXlen scfCCfgGetXlen
  | .os => valueField codeOs dceCl2 scfCCfgSetOs scfCCfgGetOs
  | .xfl => valueField codeXfl dceCl2 scfCCfgSetXfl scfCCfgGetXfl
  | .clen => valueField codeClen dceCl2 scfCCfgSetClen scfCCfgGetClen
  | .nlen => valueField codeNlen dceCl2 scfCCfgSetNlen scfCCfgGetNlen

theorem scfIndependent : Independent scf := by
  constructor
  · decide +kernel
  · decide +kernel
  · decide

def codeFdFrcCmd : DceAttrCode := ⟨4, 29, 3⟩
def codeFdFrcScus : DceAttrCode := ⟨4, 8, 2⟩
def codeFdFrcUsdc : DceAttrCode := ⟨4, 10, 1⟩
def codeFdFrcUspc : DceAttrCode := ⟨4, 11, 1⟩
def codeFdFrcUhc : DceAttrCode := ⟨4, 12, 1⟩
def codeFdFrcCe : DceAttrCode := ⟨4, 13, 2⟩
def codeFdFrcCf : DceAttrCode := ⟨4, 16, 2⟩
def codeFdFrcB64 : DceAttrCode := ⟨4, 18, 1⟩
def codeFdFrcRb : DceAttrCode := ⟨4, 19, 1⟩
def codeFdFrcInitial : DceAttrCode := ⟨4, 20, 1⟩
def codeFdFrcRecycle : DceAttrCode := ⟨4, 21, 1⟩
def codeFdFrcScrf : DceAttrCode := ⟨4, 22, 1⟩
def codeFdFrcZFlush : DceAttrCode := ⟨4, 23, 3⟩
def codeFdFrcSf : DceAttrCode := ⟨4, 28, 1⟩
def codeFdFrcStatus : DceAttrCode := ⟨4, 0, 8⟩
def codeFdFrcStreamEnd : DceAttrCode := ⟨4, 15, 1⟩

def fdFrcSetScus (d : Words) (scus : Word) : Words := dceAttrCodeEncode codeFdFrcScus dceCl d scus
def fdFrcGetScus (d : Words) : Word := dceAttrCodeDecode codeFdFrcScus dceCl d
def fdFrcSetUsdc (d : Words) (enable : Word) : Words := dceAttrCodeEncode codeFdFrcUsdc dceCl d (flag enable)
def fdFrcGetUsdc (d : Words) : Word := dceAttrCodeDecode codeFdFrcUsdc dceCl d
def fdFrcSetUspc (d : Words) (enable : Word) : Words := dceAttrCodeEncode codeFdFrcUspc dceCl d (flag enable)
def fdFrcGetUspc (d : Words) : Word := dceAttrCodeDecode codeFdFrcUspc dceCl d
def fdFrcSetUhc (d : Words) (enable : Word) : Words := dceAttrCodeEncode codeFdFrcUhc dceCl d (flag enable)
def fdFrcGetUhc (d : Words) : Word := dceAttrCodeDecode codeFdFrcUhc dceCl d
def fdFrcSetCe (d : Words) (compressionEffort : Word) : Words := dceAttrCodeEncode codeFdFrcCe dceCl d compressionEffort
def fdFrcGetCe (d : Words) : Word := dceAttrCodeDecode codeFdFrcCe dceCl d
def fdFrcSetCf (d : Words) (compressionFormat : Word) : Words := dceAttrCodeEncode codeFdFrcCf dceCl d compressionFormat
def fdFrcGetCf (d : Words) : Word := dceAttrCodeDecode codeFdFrcCf dceCl d
def fdFrcSetB64 (d : Words) (enable : Word) : Words := dceAttrCodeEncode codeFdFrcB64 dceCl d (flag enable)
def fdFrcGetB64 (d : Words) : Word := dceAttrCodeDecode codeFdFrcB64 dceCl d
def fdFrcSetRb (d : Words) (enable : Word) : Words := dceAttrCodeEncode codeFdFrcRb dceCl d (flag enable)
def fdFrcGetRb (d : Words) : Word := dceAttrCodeDecode codeFdFrcRb dceCl d
def fdFrcSetInitial (d : Words) (enable : Word) : Words := dceAttrCodeEncode codeFdFrcInitial dceCl d (flag enable)
def fdFrcGetInitial (d : Words) : Word := dceAttrCodeDecode codeFdFrcInitial dceCl d
def fdFrcSetRecycle (d : Words) (enable : Word) : Words := dceAttrCodeEncode codeFdFrcRecycle dceCl d (flag enable)
def fdFrcGetRecycle (d : Words) : Word := dceAttrCodeDecode codeFdFrcRecycle dceCl d
def fdFrcSetScrf (d : Words) (enable : Word) : Words := dceAttrCodeEncode codeFdFrcScrf dceCl d (flag enable)
def fdFrcGetScrf (d : Words) : Word := dceAttrCodeDecode codeFdFrcScrf dceCl d
def fdFrcSetZFlush (d : Words) (flush : Word) : Words := dceAttrCodeEncode codeFdFrcZFlush dceCl d flush
def fdFrcGetZFlush (d : Words) : Word := dceAttrCodeDecode codeFdFrcZFlush dceCl d
def fdFrcSetSf (d : Words) (enable : Word) : Words := dceAttrCodeEncode codeFdFrcSf dceCl d (flag enable)
def fdFrcGetSf (d : Words) : Word := dceAttrCodeDecode codeFdFrcSf dceCl d
def fdFrcSetSe (d : Words) (enable : Word) : Words := dceAttrCodeEncode codeFdFrcStreamEnd dceCl d (flag enable)
def fdFrcGetSe (d : Words) : Word := dceAttrCodeDecode codeFdFrcStreamEnd dceCl d
def fdFrcSetCmd (d : Words) (cmd : Word) : Words := dceAttrCodeEncode codeFdFrcCmd dceCl d cmd
def fdFrcGetCmd (d : Words) : Word := dceAttrCodeDecode codeFdFrcCmd dceCl d
def fdFrcGetStatus (d : Words) : Word := dceAttrCodeDecode codeFdFrcStatus dceCl d

theorem statusReads (r r' : Words) (agree : Agree [(4, 0xff)] r r') : fdFrcGetStatus r = fdFrcGetStatus r' :=
  @decodeAgree (r 4) (r' 4) 0 8 (by decide) (agreeSingle agree)

inductive FrcField where
  | scus | usdc | uspc | uhc | ce | cf | b64 | rb | initial | recycle | scrf | zFlush | sf | se | cmd | status
  deriving DecidableEq, Repr

instance : Fintype FrcField := Fintype.ofList
  [.scus, .usdc, .uspc, .uhc, .ce, .cf, .b64, .rb, .initial, .recycle, .scrf, .zFlush, .sf, .se, .cmd, .status]
  (by intro field; cases field <;> decide)

def frc : FrcField → Accessor 32
  | .scus => valueField codeFdFrcScus dceCl fdFrcSetScus fdFrcGetScus
  | .usdc => flagField codeFdFrcUsdc dceCl fdFrcSetUsdc fdFrcGetUsdc
  | .uspc => flagField codeFdFrcUspc dceCl fdFrcSetUspc fdFrcGetUspc
  | .uhc => flagField codeFdFrcUhc dceCl fdFrcSetUhc fdFrcGetUhc
  | .ce => valueField codeFdFrcCe dceCl fdFrcSetCe fdFrcGetCe
  | .cf => valueField codeFdFrcCf dceCl fdFrcSetCf fdFrcGetCf
  | .b64 => flagField codeFdFrcB64 dceCl fdFrcSetB64 fdFrcGetB64
  | .rb => flagField codeFdFrcRb dceCl fdFrcSetRb fdFrcGetRb
  | .initial => flagField codeFdFrcInitial dceCl fdFrcSetInitial fdFrcGetInitial
  | .recycle => flagField codeFdFrcRecycle dceCl fdFrcSetRecycle fdFrcGetRecycle
  | .scrf => flagField codeFdFrcScrf dceCl fdFrcSetScrf fdFrcGetScrf
  | .zFlush => valueField codeFdFrcZFlush dceCl fdFrcSetZFlush fdFrcGetZFlush
  | .sf => flagField codeFdFrcSf dceCl fdFrcSetSf fdFrcGetSf
  | .se => flagField codeFdFrcStreamEnd dceCl fdFrcSetSe fdFrcGetSe
  | .cmd => valueField codeFdFrcCmd dceCl fdFrcSetCmd fdFrcGetCmd
  | .status => readOnly fdFrcGetStatus [(4, 0xff)] statusReads

theorem frcIndependent : Independent frc := by
  constructor
  · decide +kernel
  · decide +kernel
  · decide

end Flexbuild.DceAccessors
