import Flexbuild.Accessors

/-! The accessors of the compression engine: fields of the stream context, of the frame context word and of the
descriptors of frames, scatter-gather and frame list entries. -/
namespace Flexbuild.DceAccessors
open Accessors

abbrev Word := BitVec 32
abbrev Long := BitVec 64
abbrev Half := BitVec 16
abbrev Words := Record 32

structure DceAttrCode where
  word : Nat
  lsoffset : Nat
  width : Nat

def makeMask32 (width : Nat) : Word := if width = 32 then 0xffffffff else BitVec.ofNat 32 (2 ^ width - 1)

def e32 (lsoffset width : Nat) (val : Word) : Word := (val &&& makeMask32 width) <<< lsoffset
def d32 (lsoffset width : Nat) (val : Word) : Word := (val >>> lsoffset) &&& makeMask32 width
def r32 (lsoffset width : Nat) (val : Word) : Word := ~~~ (makeMask32 width <<< lsoffset) &&& val

def dceCl : Nat := 0
def dceCl2 : Nat := 16

def dceAttrCodeDecode (code : DceAttrCode) (cl : Nat) (d : Words) : Word :=
  d32 code.lsoffset code.width (d (cl + code.word))

def dceAttrCodeEncode (code : DceAttrCode) (cl : Nat) (d : Words) (val : Word) : Words :=
  Function.update d (cl + code.word)
    (r32 code.lsoffset code.width (d (cl + code.word)) ||| e32 code.lsoffset code.width val)

def lower32 (val : Long) : Word := val.setWidth 32
def upper32 (val : Long) : Word := (val >>> 32).setWidth 32

def dceAttrCodeEncode64 (code : DceAttrCode) (cl : Nat) (d : Words) (val : Long) : Words :=
  let first := cl + 2 * (code.word / 2)
  Function.update (Function.update d first (lower32 val)) (first + 1) (upper32 val)

def decode64 (hi lo : DceAttrCode) (cl : Nat) (d : Words) : Long :=
  ((dceAttrCodeDecode hi cl d).setWidth 64 <<< 32) ||| (dceAttrCodeDecode lo cl d).setWidth 64

def flag (enable : Word) : Word := if enable = 0 then 0 else 1

section Words

variable {x y v : Word} {o width i : Nat}

theorem maskBit (most : width ≤ 32) (i : Nat) : (makeMask32 width).getLsbD i = decide (i < width) := by
  unfold makeMask32
  split
  · next full =>
    subst full
    by_cases small : i < 32
    · rw [decide_eq_true small]
      exact BitVec.getLsbD_allOnes.trans (decide_eq_true small)
    · rw [decide_eq_false small]
      exact BitVec.getLsbD_of_ge _ _ (by omega)
  · rw [BitVec.getLsbD_ofNat, Nat.testBit_two_pow_sub_one]
    by_cases small : i < width
    · have inWord : i < 32 := by omega
      simp [small, inWord]
    · simp [small]

theorem decodeBit (most : o + width ≤ 32) (i : Nat) :
    ((x >>> o) &&& makeMask32 width).getLsbD i = (x.getLsbD (o + i) && decide (i < width)) := by
  rw [BitVec.getLsbD_and, BitVec.getLsbD_ushiftRight, maskBit (by omega)]

theorem fieldBit (most : o + width ≤ 32) (i : Nat) :
    (makeMask32 width <<< o).getLsbD i = (decide (o ≤ i) && decide (i < o + width)) := by
  rw [BitVec.getLsbD_shiftLeft, maskBit (by omega)]
  by_cases after : o ≤ i
  · by_cases within : i < o + width
    · have inWord : i < 32 := by omega
      have inField : i - o < width := by omega
      simp [after, within, inWord, inField]
    · have behind : ¬ i - o < width := by omega
      simp [within, behind]
  · have before : i < o := by omega
    simp [after, before]

theorem decodeAgree (most : o + width ≤ 32)
    (agree : x &&& (makeMask32 width <<< o) = y &&& (makeMask32 width <<< o)) :
    (x >>> o) &&& makeMask32 width = (y >>> o) &&& makeMask32 width := by
  apply BitVec.eq_of_getLsbD_eq
  intro i _
  rw [decodeBit most, decodeBit most]
  by_cases within : i < width
  · have bit := congrArg (·.getLsbD (o + i)) agree
    have inField : o + i < o + width := by omega
    simp only [BitVec.getLsbD_and, fieldBit most, Nat.le_add_right, inField, decide_true, Bool.and_true] at bit
    rw [bit]
  · rw [decide_eq_false within, Bool.and_false, Bool.and_false]

theorem decodePut (most : o + width ≤ 32) :
    (((x &&& ~~~ (makeMask32 width <<< o)) ||| (v <<< o)) >>> o) &&& makeMask32 width = v &&& makeMask32 width := by
  apply BitVec.eq_of_getLsbD_eq
  intro i _
  rw [decodeBit most, BitVec.getLsbD_and, maskBit (by omega)]
  by_cases within : i < width
  · have inField : o + i < o + width := by omega
    have inWord : o + i < 32 := by omega
    have notBefore : ¬ o + i < o := by omega
    simp only [BitVec.getLsbD_or, BitVec.getLsbD_and, BitVec.getLsbD_not, BitVec.getLsbD_shiftLeft, fieldBit most,
      Nat.le_add_right, inField, inWord, within, notBefore, decide_true, decide_false, Bool.and_true, Bool.true_and,
      Bool.not_true, Bool.not_false, Bool.and_false, Bool.false_or, Nat.add_sub_cancel_left]
  · rw [decide_eq_false within, Bool.and_false, Bool.and_false]

end Words

structure WordField (Arg Val : Type) where
  word : Nat
  o : Nat
  width : Nat
  most : o + width ≤ 32
  val : Arg → Word
  view : Word → Val
  norm : Arg → Val
  Ok : Arg → Prop
  puts : Word
  set : Arg → Words → Words
  get : Words → Val
  isSet : ∀ a r, Ok a →
    set a r = Function.update r word ((r word &&& ~~~ (makeMask32 width <<< o)) ||| (val a <<< o))
  isGet : ∀ r, get r = view ((r word >>> o) &&& makeMask32 width)
  isNorm : ∀ a, Ok a → view (val a &&& makeMask32 width) = norm a
  within : ∀ a, Ok a → (val a <<< o) &&& ~~~ puts = 0

theorem singleMask (w w' : Nat) (m : Word) : maskAt [(w, m)] w' = if w = w' then m else 0 := by
  rw [maskAtCons]
  split
  · exact BitVec.or_zero
  · rfl

theorem andWhole (x : Word) : x &&& 0xffffffff = x := BitVec.and_allOnes

theorem orNone (x : Word) : x ||| 0 = x := BitVec.or_zero

theorem untouched (x : Word) : (x &&& ~~~ 0) ||| 0 = x := BitVec.or_zero.trans (andWhole x)

theorem agreeSingle {w : Nat} {m : Word} {r r' : Words} (agree : Agree [(w, m)] r r') : r w &&& m = r' w &&& m := by
  have here := agree w
  rwa [singleMask, if_pos rfl] at here

def WordField.accessor {Arg Val : Type} (f : WordField Arg Val) : Accessor 32 where
  Arg := Arg
  Val := Val
  set := f.set
  get := f.get
  norm _ := f.norm
  Ok := f.Ok
  clears := [(f.word, makeMask32 f.width <<< f.o)]
  puts := [(f.word, f.puts)]
  sees := [(f.word, makeMask32 f.width <<< f.o)]
  depends := []
  put a w := if f.word = w then f.val a <<< f.o else 0
  acts := by
    intro a r w ok
    rw [f.isSet a r ok, singleMask]
    by_cases here : f.word = w
    · subst here
      rw [Function.update_self, if_pos rfl, if_pos rfl]
    · rw [Function.update_of_ne (Ne.symm here), if_neg here, if_neg here, untouched]
  within := by
    intro a w ok
    rw [singleMask]
    split
    · exact f.within a ok
    · exact BitVec.zero_and
  reads := by
    intro r r' agree
    rw [f.isGet, f.isGet, decodeAgree f.most (agreeSingle agree)]
  steady _ _ _ _ := rfl
  own := by
    intro a r ok
    rw [f.isSet a r ok, f.isGet, Function.update_self, decodePut f.most, f.isNorm a ok]

section Coded

variable {Val : Type} (code : DceAttrCode) (cl : Nat)

-- `dce_attr_code_encode` with an argument that is normalised first.
def encoded (val norm : Word → Word) (Ok : Word → Prop) (set : Words → Word → Words) (get : Words → Word)
    (most : code.lsoffset + code.width ≤ 32) (isSet : ∀ a d, Ok a → set d a = dceAttrCodeEncode code cl d (val a))
    (isGet : ∀ d, get d = dceAttrCodeDecode code cl d)
    (isNorm : ∀ a, Ok a → val a &&& makeMask32 code.width = norm a) : Accessor 32 :=
  WordField.accessor {
    word := cl + code.word
    o := code.lsoffset
    width := code.width
    most
    val := fun a => val a &&& makeMask32 code.width
    view := id
    norm, Ok
    puts := makeMask32 code.width <<< code.lsoffset
    set := fun a d => set d a
    get
    isSet := by
      intro a d ok
      rw [isSet a d ok, dceAttrCodeEncode, r32, e32, BitVec.and_comm]
    isGet
    isNorm := by
      intro a ok
      rw [BitVec.and_assoc, BitVec.and_self]
      exact isNorm a ok
    within := by
      intro a _
      rw [BitVec.shiftLeft_and_distrib, BitVec.and_assoc]
      simp }

def valueField (set : Words → Word → Words) (get : Words → Word)
    (most : code.lsoffset + code.width ≤ 32 := by decide)
    (isSet : ∀ a d, set d a = dceAttrCodeEncode code cl d a := by exact fun _ _ => rfl)
    (isGet : ∀ d, get d = dceAttrCodeDecode code cl d := by exact fun _ => rfl) : Accessor 32 :=
  encoded code cl id (· &&& makeMask32 code.width) (fun _ => True) set get most (fun a d _ => isSet a d) isGet
    fun _ _ => rfl

theorem flagMask (enable : Word) : flag enable &&& makeMask32 1 = flag enable := by
  unfold flag
  split
  · decide
  · decide

def flagField (set : Words → Word → Words) (get : Words → Word) (single : code.width = 1 := by rfl)
    (most : code.lsoffset + code.width ≤ 32 := by decide)
    (isSet : ∀ a d, set d a = dceAttrCodeEncode code cl d (flag a) := by exact fun _ _ => rfl)
    (isGet : ∀ d, get d = dceAttrCodeDecode code cl d := by exact fun _ => rfl) : Accessor 32 :=
  encoded code cl flag flag (fun _ => True) set get most (fun a d _ => isSet a d) isGet fun a _ => by
    rw [single]
    exact flagMask a

def strayField (set : Words → Word → Words) (get : Words → Word)
    (most : code.lsoffset + code.width ≤ 32 := by decide)
    (isGet : ∀ d, get d = dceAttrCodeDecode code cl d := by exact fun _ => rfl) : Accessor 32 :=
  encoded code cl id (· &&& makeMask32 code.width) (fun _ => False) set get most (fun _ _ never => never.elim) isGet
    fun _ never => never.elim

def readOnly (get : Words → Val) (sees : Masks 32) (reads : ∀ r r', Agree sees r r' → get r = get r') :
    Accessor 32 where
  Arg := Empty
  Val := Val
  set := nofun
  get := get
  norm _ := nofun
  Ok := nofun
  clears := []
  puts := []
  sees := sees
  depends := []
  put := nofun
  acts := nofun
  within := nofun
  reads := reads
  steady := nofun
  own := nofun

end Coded

theorem lowerUpper (val : Long) : ((upper32 val).setWidth 64 <<< 32) ||| (lower32 val).setWidth 64 = val := by
  apply BitVec.eq_of_getLsbD_eq
  intro i small
  unfold upper32 lower32
  rw [BitVec.getLsbD_or, BitVec.getLsbD_shiftLeft, BitVec.getLsbD_setWidth, BitVec.getLsbD_setWidth,
    BitVec.getLsbD_setWidth, BitVec.getLsbD_setWidth, BitVec.getLsbD_ushiftRight]
  by_cases low : i < 32
  · simp [small, low]
  · have back : 32 + (i - 32) = i := by omega
    have inHigh : i - 32 < 32 := by omega
    have inLong : i - 32 < 64 := by omega
    simp [small, low, back, inHigh, inLong]

def wholeWords (hi lo : Nat) (set : Words → Long → Words) (get : Words → Long)
    (isSet : ∀ a d, set d a = Function.update (Function.update d lo (lower32 a)) hi (upper32 a))
    (isGet : ∀ d, get d = ((d hi).setWidth 64 <<< 32) ||| (d lo).setWidth 64)
    (different : hi ≠ lo := by decide) : Accessor 32 where
  Arg := Long
  Val := Long
  set := fun a d => set d a
  get := get
  norm _ a := a
  Ok _ := True
  clears := [(lo, 0xffffffff), (hi, 0xffffffff)]
  puts := [(lo, 0xffffffff), (hi, 0xffffffff)]
  sees := [(lo, 0xffffffff), (hi, 0xffffffff)]
  depends := []
  put a w := if hi = w then upper32 a else if lo = w then lower32 a else 0
  acts := by
    intro a r w _
    rw [isSet a r, maskAtCons, singleMask]
    by_cases high : hi = w
    · subst high
      rw [Function.update_self, if_neg (Ne.symm different), if_pos rfl, if_pos rfl]
      simp
    · rw [Function.update_of_ne (Ne.symm high), if_neg high, if_neg high]
      by_cases low : lo = w
      · subst low
        rw [Function.update_self, if_pos rfl, if_pos rfl]
        simp
      · rw [Function.update_of_ne (Ne.symm low), if_neg low, if_neg low, untouched]
  within := by
    intro a w _
    rw [maskAtCons, singleMask]
    by_cases high : hi = w
    · subst high
      simp
    · by_cases low : lo = w
      · subst low
        simp [high]
      · simp [high, low]
  reads := by
    intro r r' agree
    have atLo := agree lo
    have atHi := agree hi
    rw [maskAtCons, singleMask, if_pos rfl, if_neg different, orNone] at atLo
    rw [maskAtCons, singleMask, if_neg (Ne.symm different), if_pos rfl] at atHi
    have sameLo : r lo = r' lo := ((andWhole _).symm.trans atLo).trans (andWhole _)
    have sameHi : r hi = r' hi := ((andWhole _).symm.trans atHi).trans (andWhole _)
    rw [isGet, isGet, sameLo, sameHi]
  steady _ _ _ _ := rfl
  own := by
    intro a r _
    rw [isSet, isGet, Function.update_self, Function.update_of_ne (Ne.symm different), Function.update_self, lowerUpper]

end Flexbuild.DceAccessors
