import Flexbuild.DceFields

/-! The accessors of frame descriptors, scatter-gather entries and frame list entries. Some setters shift their
argument into a word without a mask. -/
namespace Flexbuild.DceAccessors
open Accessors

def addrLo : Nat := 0
def addrHi : Nat := 1
def len : Nat := 2
def bpidOffset : Nat := 3
def frcWord : Nat := 4
def flcLo : Nat := 6
def flcHi : Nat := 7

def joined (hi lo : Word) : Long := (hi.setWidth 64 <<< 32) + lo.setWidth 64
def patch (d : Words) (w : Nat) (keep v : Word) : Words := Function.update d w ((d w &&& keep) ||| v)
def bit (b : Bool) : Word := if b then 1 else 0

def dpaa2FdGetAddr (fd : Words) : Long := joined (fd addrHi) (fd addrLo)
def dpaa2FdSetAddr (fd : Words) (addr : Long) : Words :=
  Function.update (Function.update fd addrHi (upper32 addr)) addrLo (lower32 addr)
def dpaa2FdGetFrc (fd : Words) : Word := fd frcWord
def dpaa2FdSetFrc (fd : Words) (frc : Word) : Words := Function.update fd frcWord frc
def dpaa2FdGetFlc (fd : Words) : Long := joined (fd flcHi) (fd flcLo)
def dpaa2FdSetFlc (fd : Words) (flcAddr : Long) : Words :=
  Function.update (Function.update fd flcHi (upper32 flcAddr)) flcLo (lower32 flcAddr)
def dpaa2FdGetLen (fd : Words) : Word := fd len
def dpaa2FdSetLen (fd : Words) (length : Word) : Words := Function.update fd len length
def dpaa2FdGetOffset (fd : Words) : Half := (fd bpidOffset >>> 16).setWidth 16 &&& 0x0FFF
def dpaa2FdSetOffset (fd : Words) (offset : Half) : Words := patch fd bpidOffset 0xF000FFFF (offset.setWidth 32 <<< 16)
def dpaa2FdGetFormat (fd : Words) : Word := (fd bpidOffset >>> 28) &&& 0x3
def dpaa2FdSetFormat (fd : Words) (format : Word) : Words := patch fd bpidOffset 0xCFFFFFFF (format <<< 28)
def dpaa2FdGetBpid (fd : Words) : Half := (fd bpidOffset &&& 0xFFFF).setWidth 16
def dpaa2FdSetBpid (fd : Words) (bpid : Half) : Words := patch fd bpidOffset 0xFFFF0000 (bpid.setWidth 32)

def dpaa2SgGetAddr (sg : Words) : Long := joined (sg addrHi) (sg addrLo)
def dpaa2SgSetAddr (sg : Words) (addr : Long) : Words :=
  Function.update (Function.update sg addrHi (upper32 addr)) addrLo (lower32 addr)
def dpaa2SgShortLen (sg : Words) : Bool := (sg bpidOffset >>> 30) &&& 0x1 ≠ 0
def dpaa2SgGetLen (sg : Words) : Word := if dpaa2SgShortLen sg then sg len &&& 0x1FFFF else sg len
def dpaa2SgSetLen (sg : Words) (length : Word) : Words := Function.update sg len length
def dpaa2SgGetOffset (sg : Words) : Half := (sg bpidOffset >>> 16).setWidth 16 &&& 0x0FFF
def dpaa2SgSetOffset (sg : Words) (offset : Half) : Words := patch sg bpidOffset 0xF000FFFF (offset.setWidth 32 <<< 16)
def dpaa2SgGetFormat (sg : Words) : Word := (sg bpidOffset >>> 28) &&& 0x3
def dpaa2SgSetFormat (sg : Words) (format : Word) : Words := patch sg bpidOffset 0xCFFFFFFF (format <<< 28)
def dpaa2SgGetBpid (sg : Words) : Half := (sg bpidOffset &&& 0x3FFF).setWidth 16
def dpaa2SgSetBpid (sg : Words) (bpid : Half) : Words := patch sg bpidOffset 0xFFFFC000 (bpid.setWidth 32)
def dpaa2SgIsFinal (sg : Words) : Bool := sg bpidOffset >>> 31 ≠ 0
def dpaa2SgSetFinal (sg : Words) (final : Bool) : Words := patch sg bpidOffset 0x7FFFFFFF (bit final <<< 31)

def dpaa2FlGetAddr (fle : Words) : Long := joined (fle addrHi) (fle addrLo)
def dpaa2FlSetAddr (fle : Words) (addr : Long) : Words :=
  Function.update (Function.update fle addrHi (upper32 addr)) addrLo (lower32 addr)
def dpaa2FlGetFlc (fle : Words) : Long := joined (fle flcHi) (fle flcLo)
def dpaa2FlSetFlc (fle : Words) (flcAddr : Long) : Words :=
  Function.update (Function.update fle flcHi (upper32 flcAddr)) flcLo (lower32 flcAddr)
def dpaa2FlGetLen (fle : Words) : Word := fle len
def dpaa2FlSetLen (fle : Words) (length : Word) : Words := Function.update fle len length
def dpaa2FlGetOffset (fle : Words) : Half := (fle bpidOffset >>> 16).setWidth 16 &&& 0x0FFF
def dpaa2FlSetOffset (fle : Words) (offset : Half) : Words :=
  patch fle bpidOffset 0xF000FFFF ((offset &&& 0x0FFF).setWidth 32 <<< 16)
def dpaa2FlGetFormat (fle : Words) : Word := (fle bpidOffset >>> 28) &&& 0x3
def dpaa2FlSetFormat (fle : Words) (format : Word) : Words := patch fle bpidOffset 0xCFFFFFFF ((format &&& 0x3) <<< 28)
def dpaa2FlGetBpid (fle : Words) : Half := (fle bpidOffset &&& 0x3FFF).setWidth 16
def dpaa2FlSetBpid (fle : Words) (bpid : Half) : Words := patch fle bpidOffset 0xFFFFC000 (bpid.setWidth 32)
def dpaa2FlIsFinal (fle : Words) : Bool := fle bpidOffset >>> 31 ≠ 0
def dpaa2FlSetFinal (fle : Words) (final : Bool) : Words := patch fle bpidOffset 0x7FFFFFFF (bit final <<< 31)

theorem joinedOr (hi lo : Word) : joined hi lo = (hi.setWidth 64 <<< 32) ||| lo.setWidth 64 := by
  refine BitVec.add_eq_or_of_and_eq_zero _ _ ?_
  apply BitVec.eq_of_getLsbD_eq
  intro i small
  rw [BitVec.getLsbD_and, BitVec.getLsbD_shiftLeft, BitVec.getLsbD_setWidth]
  by_cases low : i < 32
  · simp [low]
  · have above : lo.getLsbD i = false := BitVec.getLsbD_of_ge _ _ (by omega)
    simp [above]

theorem shiftAnd (a m : Word) (s : Nat) : (a <<< s) &&& m = (a &&& (m >>> s)) <<< s := by
  apply BitVec.eq_of_getLsbD_eq
  intro i small
  rw [BitVec.getLsbD_and, BitVec.getLsbD_shiftLeft, BitVec.getLsbD_shiftLeft, BitVec.getLsbD_and,
    BitVec.getLsbD_ushiftRight]
  by_cases after : s ≤ i
  · have back : s + (i - s) = i := by omega
    have notBefore : ¬ i < s := by omega
    simp [small, back, notBefore]
  · have before : i < s := by omega
    simp [before]

theorem wideAnd (a : Half) (m : Word) : a.setWidth 32 &&& m = (a &&& m.setWidth 16).setWidth 32 := by
  apply BitVec.eq_of_getLsbD_eq
  intro i small
  simp only [BitVec.getLsbD_and, BitVec.getLsbD_setWidth, small, decide_true, Bool.true_and]
  by_cases low : i < 16
  · simp [low]
  · have above : a.getLsbD i = false := BitVec.getLsbD_of_ge _ _ (by omega)
    simp [above]

def fullWords (hi lo : Nat) (set : Words → Long → Words) (get : Words → Long) (different : hi ≠ lo := by decide)
    (isSet : ∀ a d, set d a = Function.update (Function.update d hi (upper32 a)) lo (lower32 a) := by
      exact fun _ _ => rfl)
    (isGet : ∀ d, get d = joined (d hi) (d lo) := by exact fun _ => rfl) : Accessor 32 :=
  wholeWords hi lo set get (fun a d => (isSet a d).trans (Function.update_comm different _ _ _))
    (fun d => (isGet d).trans (joinedOr _ _)) different

def fullWord (w : Nat) (set : Words → Word → Words) (get : Words → Word)
    (isSet : ∀ a d, set d a = Function.update d w a := by exact fun _ _ => rfl)
    (isGet : ∀ d, get d = d w := by exact fun _ => rfl) : Accessor 32 :=
  WordField.accessor {
    word := w, o := 0, width := 32, most := by decide, val := id, view := id, norm := id, Ok := fun _ => True
    puts := 0xffffffff
    set := fun a d => set d a
    get
    isSet := by
      intro a d _
      have none : d w &&& ~~~ (makeMask32 32 <<< 0) = 0 := BitVec.and_zero
      rw [isSet, none]
      exact congrArg (Function.update d w) ((BitVec.zero_or).trans (BitVec.shiftLeft_zero a)).symm
    isGet := fun d => (isGet d).trans (decodeWhole _).symm
    isNorm := fun a _ => andWhole a
    within := fun _ _ => BitVec.and_zero }

theorem withinPuts (v puts : Word) (o : Nat) (clear : v &&& (~~~ puts >>> o) = 0) : (v <<< o) &&& ~~~ puts = 0 := by
  rw [shiftAnd, clear]
  exact BitVec.zero_shiftLeft o

def offsetField (val norm : Half → Half) (Ok : Half → Prop) (puts : Word) (set : Words → Half → Words)
    (get : Words → Half) (isNorm : ∀ a, val a &&& 0x0FFF = norm a)
    (within : ∀ a, Ok a → (val a).setWidth 32 &&& (~~~ puts >>> 16) = 0)
    (isSet : ∀ a d, set d a = patch d bpidOffset 0xF000FFFF ((val a).setWidth 32 <<< 16) := by exact fun _ _ => rfl)
    (isGet : ∀ d, get d = (d bpidOffset >>> 16).setWidth 16 &&& 0x0FFF := by exact fun _ => rfl) : Accessor 32 :=
  WordField.accessor {
    word := bpidOffset, o := 16, width := 12, most := by decide
    val := fun a => (val a).setWidth 32
    view := fun x => x.setWidth 16
    norm, Ok, puts
    set := fun a d => set d a
    get
    isSet := fun a d _ => isSet a d
    isGet := by
      intro d
      rw [isGet, BitVec.setWidth_and]
      rfl
    isNorm := by
      intro a _
      rw [BitVec.setWidth_and, BitVec.setWidth_setWidth_of_le _ (by decide), BitVec.setWidth_eq]
      exact isNorm a
    within := fun a ok => withinPuts _ _ _ (within a ok) }

def formatField (val : Word → Word) (Ok : Word → Prop) (puts : Word) (set : Words → Word → Words)
    (get : Words → Word) (isNorm : ∀ a, val a &&& 0x3 = a &&& 0x3)
    (within : ∀ a, Ok a → val a &&& (~~~ puts >>> 28) = 0)
    (isSet : ∀ a d, set d a = patch d bpidOffset 0xCFFFFFFF (val a <<< 28) := by exact fun _ _ => rfl)
    (isGet : ∀ d, get d = (d bpidOffset >>> 28) &&& 0x3 := by exact fun _ => rfl) : Accessor 32 :=
  WordField.accessor {
    word := bpidOffset, o := 28, width := 2, most := by decide
    val, view := id
    norm := (· &&& 0x3)
    Ok, puts
    set := fun a d => set d a
    get
    isSet := fun a d _ => isSet a d
    isGet
    isNorm := fun a _ => isNorm a
    within := fun a ok => withinPuts _ _ _ (within a ok) }

def bpidField (width : Nat) (keep : Word) (set : Words → Half → Words) (get : Words → Half)
    (isGet : ∀ d, get d = (d bpidOffset &&& makeMask32 width).setWidth 16)
    (isKeep : keep = ~~~ (makeMask32 width <<< 0) := by decide) (most : 0 + width ≤ 32 := by decide)
    (isSet : ∀ a d, set d a = patch d bpidOffset keep (a.setWidth 32) := by exact fun _ _ => rfl) : Accessor 32 :=
  WordField.accessor {
    word := bpidOffset, o := 0, width, most
    val := fun a => a.setWidth 32
    view := fun x => x.setWidth 16
    norm := fun a => a &&& (makeMask32 width).setWidth 16
    Ok := fun _ => True
    puts := 0xFFFF
    set := fun a d => set d a
    get
    isSet := by
      intro a d _
      rw [isSet, patch, isKeep, BitVec.shiftLeft_zero (BitVec.setWidth 32 a)]
    isGet := by
      intro d
      rw [isGet, BitVec.ushiftRight_zero]
    isNorm := by
      intro a _
      rw [BitVec.setWidth_and, BitVec.setWidth_setWidth_of_le _ (by decide), BitVec.setWidth_eq]
    within := by
      intro a _
      refine withinPuts _ _ _ ?_
      rw [wideAnd]
      have none : a &&& (~~~ (0xFFFF : Word) >>> 0).setWidth 16 = 0 := BitVec.and_zero
      rw [none]
      rfl }

theorem topBit (x : Word) : (x >>> 31) &&& makeMask32 1 = x >>> 31 := by
  apply BitVec.eq_of_getLsbD_eq
  intro i small
  rw [BitVec.getLsbD_and, BitVec.getLsbD_ushiftRight, maskBit (by decide)]
  by_cases first : i = 0
  · simp [first]
  · have above : x.getLsbD (31 + i) = false := BitVec.getLsbD_of_ge _ _ (by omega)
    simp [above]

def finalField (set : Words → Bool → Words) (get : Words → Bool)
    (isSet : ∀ a d, set d a = patch d bpidOffset 0x7FFFFFFF (bit a <<< 31) := by exact fun _ _ => rfl)
    (isGet : ∀ d, get d = decide (d bpidOffset >>> 31 ≠ 0) := by exact fun _ => rfl) : Accessor 32 :=
  WordField.accessor {
    word := bpidOffset, o := 31, width := 1, most := by decide
    val := bit
    view := fun x => decide (x ≠ 0)
    norm := id
    Ok := fun _ => True
    puts := 0x80000000
    set := fun a d => set d a
    get
    isSet := fun a d _ => isSet a d
    isGet := by
      intro d
      rw [isGet, topBit]
    isNorm := by
      intro a _
      cases a <;> decide
    within := fun a _ => withinPuts _ _ _ BitVec.and_zero }

theorem shortAgree {r r' : Words} (agree : Agree [(bpidOffset, 0x40000000)] r r') : dpaa2SgShortLen r = dpaa2SgShortLen r' := by
  have same := @decodeAgree (r bpidOffset) (r' bpidOffset) 30 1 (by decide) (agreeSingle agree)
  unfold dpaa2SgShortLen
  exact congrArg (fun x : Word => decide (x ≠ 0)) same

def sgLength (short : Bool) (length : Word) : Word := if short then length &&& 0x1FFFF else length

def lengthField : Accessor 32 where
  Arg := Word
  Val := Word
  set a d := dpaa2SgSetLen d a
  get := dpaa2SgGetLen
  norm d a := sgLength (dpaa2SgShortLen d) a
  Ok _ := True
  clears := [(len, 0xffffffff)]
  puts := [(len, 0xffffffff)]
  sees := [(len, 0xffffffff), (bpidOffset, 0x40000000)]
  depends := [(bpidOffset, 0x40000000)]
  put a w := if len = w then a else 0
  acts := by
    intro a d w _
    rw [singleMask]
    by_cases here : len = w
    · subst here
      have none : d len &&& ~~~ 0xffffffff = 0 := BitVec.and_zero
      rw [if_pos rfl, if_pos rfl, none]
      exact (Function.update_self len a d).trans BitVec.zero_or.symm
    · rw [if_neg here, if_neg here, untouched]
      exact Function.update_of_ne (Ne.symm here) a d
  within := by
    intro a w _
    rw [singleMask]
    split
    · exact BitVec.and_zero
    · exact BitVec.zero_and
  reads := by
    intro r r' agree
    have atLen : r len &&& 0xffffffff = r' len &&& 0xffffffff := agree len
    rw [andWhole, andWhole] at atLen
    have short : dpaa2SgShortLen r = dpaa2SgShortLen r' := by
      refine shortAgree fun w => ?_
      rw [singleMask]
      split
      · next here =>
        subst here
        exact agree bpidOffset
      · exact BitVec.and_zero.trans BitVec.and_zero.symm
    rw [dpaa2SgGetLen, dpaa2SgGetLen, short, atLen]
  steady := by
    intro r r' a agree
    rw [shortAgree agree]
  own := by
    intro a r _
    have short : dpaa2SgShortLen (dpaa2SgSetLen r a) = dpaa2SgShortLen r := by
      unfold dpaa2SgShortLen dpaa2SgSetLen
      rw [Function.update_of_ne (by decide)]
    have isLen : dpaa2SgSetLen r a len = a := by
      unfold dpaa2SgSetLen
      rw [Function.update_self]
    rw [dpaa2SgGetLen, short, isLen]
    rfl

section Tables

variable {puts : Word}

theorem halfClear (a : Half) (m : Half) (wide : ~~~ puts >>> 16 = m.setWidth 32) (clear : a &&& m = 0) :
    a.setWidth 32 &&& (~~~ puts >>> 16) = 0 := by
  rw [wide, wideAnd, BitVec.setWidth_setWidth_of_le _ (by decide), BitVec.setWidth_eq, clear]
  rfl

inductive FdField where
  | addr | frc | flc | len | offset | format | bpid
  deriving DecidableEq, Repr

instance : Fintype FdField := Fintype.ofList
  [.addr, .frc, .flc, .len, .offset, .format, .bpid]
  (by intro field; cases field <;> decide)

inductive SgField where
  | addr | shortLen | len | offset | format | bpid | final
  deriving DecidableEq, Repr

instance : Fintype SgField := Fintype.ofList
  [.addr, .shortLen, .len, .offset, .format, .bpid, .final]
  (by intro field; cases field <;> decide)

inductive FlField where
  | addr | flc | len | offset | format | bpid | final
  deriving DecidableEq, Repr

instance : Fintype FlField := Fintype.ofList
  [.addr, .flc, .len, .offset, .format, .bpid, .final]
  (by intro field; cases field <;> decide)

def fd : FdField → Accessor 32
  | .addr => fullWords addrHi addrLo dpaa2FdSetAddr dpaa2FdGetAddr
  | .frc => fullWord frcWord dpaa2FdSetFrc dpaa2FdGetFrc
  | .flc => fullWords flcHi flcLo dpaa2FdSetFlc dpaa2FdGetFlc
  | .len => fullWord DceAccessors.len dpaa2FdSetLen dpaa2FdGetLen
  -- Bits 12 and 13 of the offset are those of the format; bits 14 and 15 belong to no field.
  | .offset => offsetField id (· &&& 0x0FFF) (· &&& 0x3000 = 0) 0xCFFF0000 dpaa2FdSetOffset dpaa2FdGetOffset
      (fun _ => rfl) fun a clear => halfClear a 0x3000 (by decide) clear
  | .format => formatField id (fun _ => True) 0xF0000000 dpaa2FdSetFormat dpaa2FdGetFormat (fun _ => rfl)
      fun _ _ => BitVec.and_zero
  | .bpid => bpidField 16 0xFFFF0000 dpaa2FdSetBpid dpaa2FdGetBpid fun _ => rfl

def sg : SgField → Accessor 32
  | .addr => fullWords addrHi addrLo dpaa2SgSetAddr dpaa2SgGetAddr
  | .shortLen => readOnly dpaa2SgShortLen [(bpidOffset, 0x40000000)] fun _ _ => shortAgree
  | .len => lengthField
  | .offset => offsetField id (· &&& 0x0FFF) (· &&& 0xF000 = 0) 0x0FFF0000 dpaa2SgSetOffset dpaa2SgGetOffset
      (fun _ => rfl) fun a clear => halfClear a 0xF000 (by decide) clear
  | .format => formatField id (· &&& 0xC = 0) 0x30000000 dpaa2SgSetFormat dpaa2SgGetFormat (fun _ => rfl)
      fun _ clear => clear
  | .bpid => bpidField 14 0xFFFFC000 dpaa2SgSetBpid dpaa2SgGetBpid fun _ => rfl
  | .final => finalField dpaa2SgSetFinal dpaa2SgIsFinal

def fl : FlField → Accessor 32
  | .addr => fullWords addrHi addrLo dpaa2FlSetAddr dpaa2FlGetAddr
  | .flc => fullWords flcHi flcLo dpaa2FlSetFlc dpaa2FlGetFlc
  | .len => fullWord DceAccessors.len dpaa2FlSetLen dpaa2FlGetLen
  | .offset => offsetField (· &&& 0x0FFF) (· &&& 0x0FFF) (fun _ => True) 0x0FFF0000 dpaa2FlSetOffset dpaa2FlGetOffset
      (fun a => by rw [BitVec.and_assoc, BitVec.and_self]) fun a _ => halfClear _ 0xF000 (by decide) (by
        rw [BitVec.and_assoc]
        exact BitVec.and_zero)
  | .format => formatField (· &&& 0x3) (fun _ => True) 0x30000000 dpaa2FlSetFormat dpaa2FlGetFormat
      (fun a => by rw [BitVec.and_assoc, BitVec.and_self]) fun a _ => by
        rw [BitVec.and_assoc]
        exact BitVec.and_zero
  | .bpid => bpidField 14 0xFFFFC000 dpaa2FlSetBpid dpaa2FlGetBpid fun _ => rfl
  | .final => finalField dpaa2FlSetFinal dpaa2FlIsFinal

theorem fdIndependent : Independent fd := by
  constructor
  · decide
  · decide
  · decide

theorem sgIndependent : Independent sg := by
  constructor
  · decide
  · decide
  · decide

theorem flIndependent : Independent fl := by
  constructor
  · decide
  · decide
  · decide

end Tables

section Exact

structure FieldsKept {ι : Type} [DecidableEq ι] (f : ι → Accessor 32) : Prop where
  gets : ∀ (calls : List (Call f)) (r : Words), (∀ c ∈ calls, (f c.1).Ok c.2) →
    ∀ i, (f i).get (run f calls r) = expected f i r calls
  commute : ∀ i j (a : (f i).Arg) (b : (f j).Arg) (r : Words), i ≠ j → (f i).Ok a → (f j).Ok b →
    (f i).set a ((f j).set b r) = (f j).set b ((f i).set a r)
  exact : ∀ i (a : (f i).Arg), (f i).Ok a ↔ RightCall f i a

theorem fieldsKept {ι : Type} [DecidableEq ι] {f : ι → Accessor 32} (independent : Independent f)
    (needed : ∀ i a, RightCall f i a → (f i).Ok a) : FieldsKept f where
  gets calls r ok i := runGets independent i calls r ok
  commute _ _ _ _ r different okA okB := setCommute independent different okA okB r
  exact i a := ⟨okRight independent, needed i a⟩

def cleared : Words := fun _ => 0
def filled : Words := fun _ => 0xffffffff

theorem strayGet (code : DceAttrCode) {cl w : Nat} (away : cl + code.word ≠ w) (d : Words) (x : Word) :
    dceAttrCodeDecode code cl (Function.update d w x) = dceAttrCodeDecode code cl d := by
  rw [dceAttrCodeDecode, Function.update_of_ne away]
  rfl

theorem pmodeStray (a : Word) : ¬ RightCall scf .pmode a := by
  intro right
  have kept (d : Words) : scfCCfgGetPmode (scfCCfgSetPmode d a) = scfCCfgGetPmode d := strayGet codePmode (by decide) d _
  have zero : scfCCfgGetPmode (scfCCfgSetPmode cleared a) = a &&& makeMask32 1 := (right cleared).1
  have one : scfCCfgGetPmode (scfCCfgSetPmode filled a) = a &&& makeMask32 1 := (right filled).1
  have same : scfCCfgGetPmode cleared = scfCCfgGetPmode filled := by rw [← kept, zero, ← one, kept]
  exact absurd same (by decide)

theorem xlenStray (a : Word) : ¬ RightCall scf .xlen a := by
  intro right
  have kept (d : Words) : scfCCfgGetXlen (scfCCfgSetXlen d a) = scfCCfgGetXlen d := strayGet codeXlen (by decide) d _
  have zero : scfCCfgGetXlen (scfCCfgSetXlen cleared a) = a &&& makeMask32 16 := (right cleared).1
  have full : scfCCfgGetXlen (scfCCfgSetXlen filled a) = a &&& makeMask32 16 := (right filled).1
  have same : scfCCfgGetXlen cleared = scfCCfgGetXlen filled := by rw [← kept, zero, ← full, kept]
  exact absurd same (by decide)

theorem scfNeeded (i : ScfField) (a : (scf i).Arg) (right : RightCall scf i a) : (scf i).Ok a := by
  cases i
  case pmode => exact (pmodeStray a right).elim
  case xlen => exact (xlenStray a right).elim
  all_goals exact trivial

theorem andZero {k : Nat} {a m : BitVec k} (zero : ∀ i < k, m.getLsbD i = true → a.getLsbD i = false) : a &&& m = 0 := by
  apply BitVec.eq_of_getLsbD_eq
  intro i small
  rw [BitVec.getLsbD_and]
  cases masked : m.getLsbD i with
  | true =>
    rw [zero i small masked]
    exact BitVec.getLsbD_zero.symm
  | false => exact (Bool.and_false _).trans BitVec.getLsbD_zero.symm

theorem putBit (v keep : Word) {o i : Nat} (small : o + i < 32) :
    (patch cleared bpidOffset keep (v <<< o) bpidOffset).getLsbD (o + i) = v.getLsbD i := by
  have none : cleared bpidOffset &&& keep = 0 := BitVec.zero_and
  have inWord : i < 32 := by omega
  rw [patch, Function.update_self, none, BitVec.getLsbD_or, BitVec.getLsbD_shiftLeft, Nat.add_sub_cancel_left]
  simp [small]

theorem offsetBit (a : Half) {i : Nat} (small : 16 + i < 32) :
    (patch cleared bpidOffset 0xF000FFFF (a.setWidth 32 <<< 16) bpidOffset).getLsbD (16 + i) = a.getLsbD i := by
  have inWord : i < 32 := by omega
  rw [putBit _ _ small, BitVec.getLsbD_setWidth, decide_eq_true inWord, Bool.true_and]

theorem formatBit {x : Word} (zero : (x >>> 28) &&& 0x3 = 0) (i : Nat) (small : i < 2) : x.getLsbD (28 + i) = false := by
  have bit := congrArg (·.getLsbD i) zero
  have inMask : (0x3 : Word).getLsbD i = true := (by decide : ∀ i < 2, (0x3 : Word).getLsbD i = true) i small
  simp only [BitVec.getLsbD_and, BitVec.getLsbD_ushiftRight, inMask, Bool.and_true] at bit
  exact bit.trans BitVec.getLsbD_zero

theorem shortBit {x : Word} (zero : decide ((x >>> 30) &&& 0x1 ≠ 0) = false) : x.getLsbD 30 = false := by
  have isZero : (x >>> 30) &&& 0x1 = 0 := Decidable.not_not.mp (of_decide_eq_false zero)
  have bit := congrArg (·.getLsbD 0) isZero
  simpa using bit

theorem finalBit {x : Word} (zero : decide (x >>> 31 ≠ 0) = false) : x.getLsbD 31 = false := by
  have isZero : x >>> 31 = 0 := Decidable.not_not.mp (of_decide_eq_false zero)
  have bit := congrArg (·.getLsbD 0) isZero
  simpa using bit

theorem fdNeeded (i : FdField) (a : (fd i).Arg) (right : RightCall fd i a) : (fd i).Ok a := by
  cases i
  case offset =>
    have format : dpaa2FdGetFormat (dpaa2FdSetOffset cleared a) = 0 := (right cleared).2 .format (by decide)
    change Half at a
    refine andZero fun i small masked => ?_
    have place : i = 12 ∨ i = 13 :=
      (by decide : ∀ i < 16, (0x3000 : Half).getLsbD i = true → i = 12 ∨ i = 13) i small masked
    rw [← offsetBit a (by omega)]
    rcases place with rfl | rfl
    · exact formatBit format 0 (by decide)
    · exact formatBit format 1 (by decide)
  all_goals exact trivial

theorem sgNeeded (i : SgField) (a : (sg i).Arg) (right : RightCall sg i a) : (sg i).Ok a := by
  cases i
  case shortLen => exact nomatch a
  case offset =>
    have format : dpaa2SgGetFormat (dpaa2SgSetOffset cleared a) = 0 := (right cleared).2 .format (by decide)
    have short : dpaa2SgShortLen (dpaa2SgSetOffset cleared a) = false := (right cleared).2 .shortLen (by decide)
    have final : dpaa2SgIsFinal (dpaa2SgSetOffset cleared a) = false := (right cleared).2 .final (by decide)
    change Half at a
    refine andZero fun i small masked => ?_
    have place : i = 12 ∨ i = 13 ∨ i = 14 ∨ i = 15 :=
      (by decide : ∀ i < 16, (0xF000 : Half).getLsbD i = true → i = 12 ∨ i = 13 ∨ i = 14 ∨ i = 15) i small masked
    rw [← offsetBit a (by omega)]
    rcases place with rfl | rfl | rfl | rfl
    · exact formatBit format 0 (by decide)
    · exact formatBit format 1 (by decide)
    · exact shortBit short
    · exact finalBit final
  case format =>
    have short : dpaa2SgShortLen (dpaa2SgSetFormat cleared a) = false := (right cleared).2 .shortLen (by decide)
    have final : dpaa2SgIsFinal (dpaa2SgSetFormat cleared a) = false := (right cleared).2 .final (by decide)
    change Word at a
    refine andZero fun i small masked => ?_
    have place : i = 2 ∨ i = 3 :=
      (by decide : ∀ i < 32, (0xC : Word).getLsbD i = true → i = 2 ∨ i = 3) i small masked
    rw [← @putBit a 0xCFFFFFFF 28 i (by omega)]
    rcases place with rfl | rfl
    · exact shortBit short
    · exact finalBit final
  all_goals exact trivial

theorem frcNeeded (i : FrcField) (a : (frc i).Arg) (_ : RightCall frc i a) : (frc i).Ok a := by
  cases i
  case status => exact nomatch a
  all_goals exact trivial

theorem flNeeded (i : FlField) (a : (fl i).Arg) (_ : RightCall fl i a) : (fl i).Ok a := by
  cases i
  all_goals exact trivial

end Exact

inductive Layout where
  | scfCCfg | fdFrc | dpaa2Fd | dpaa2SgEntry | dpaa2FlEntry

def Layout.Field : Layout → Type
  | .scfCCfg => ScfField
  | .fdFrc => FrcField
  | .dpaa2Fd => FdField
  | .dpaa2SgEntry => SgField
  | .dpaa2FlEntry => FlField

instance : ∀ layout : Layout, DecidableEq layout.Field
  | .scfCCfg => inferInstanceAs (DecidableEq ScfField)
  | .fdFrc => inferInstanceAs (DecidableEq FrcField)
  | .dpaa2Fd => inferInstanceAs (DecidableEq FdField)
  | .dpaa2SgEntry => inferInstanceAs (DecidableEq SgField)
  | .dpaa2FlEntry => inferInstanceAs (DecidableEq FlField)

def Layout.accessor : ∀ layout : Layout, layout.Field → Accessor 32
  | .scfCCfg => scf
  | .fdFrc => frc
  | .dpaa2Fd => fd
  | .dpaa2SgEntry => sg
  | .dpaa2FlEntry => fl

theorem independentFields (layout : Layout) : FieldsKept layout.accessor := by
  cases layout with
  | scfCCfg => exact fieldsKept scfIndependent scfNeeded
  | fdFrc => exact fieldsKept frcIndependent frcNeeded
  | dpaa2Fd => exact fieldsKept fdIndependent fdNeeded
  | dpaa2SgEntry => exact fieldsKept sgIndependent sgNeeded
  | dpaa2FlEntry => exact fieldsKept flIndependent flNeeded

theorem neighboursChanged :
    (scfCCfgGetPmode (scfCCfgSetPmode cleared 1) = 0 ∧ scfCCfgGetAdler32 (scfCCfgSetPmode cleared 1) = 0x80000000) ∧
      (scfCCfgGetXlen (scfCCfgSetXlen cleared 5) = 0 ∧ scfCCfgGetMtime (scfCCfgSetXlen cleared 5) = 5) ∧
      dpaa2FdGetFormat (dpaa2FdSetOffset cleared 0x1000) = 1 ∧
      dpaa2SgIsFinal (dpaa2SgSetOffset cleared 0x8000) = true ∧ dpaa2SgIsFinal (dpaa2SgSetFormat cleared 8) = true := by
  decide

end Flexbuild.DceAccessors
