import Flexbuild.Signing
import Mathlib.Data.List.Induction
import Mathlib.Tactic.Tauto

/-! A signature operation is under way from the `sign_init` that begins it to the `sign` that
finishes it, and what the private key is applied to is the padded message. -/
namespace Flexbuild.Signing
open ByteMemory (Byte)
open ObjectSearch (Attribute templateCheckAttr)
open TokenObjects

section Protocol

def Begins : Call × Rv → Prop
  | (.signInit .., rc) => rc = .ok
  | (.sign .., _) => False

def Finishes : Call × Rv → Prop
  | (.signInit .., _) => False
  | (.sign _ _ pSignature _, rc) => ¬ (rc = .ok ∧ pSignature = false) ∧ rc ≠ .bufferTooSmall

def UnderWay (past : List (Call × Rv)) : Prop :=
  ∃ before first after, past = before ++ first :: after ∧ Begins first ∧ ∀ x ∈ after, ¬ Finishes x

variable {env : Env} {ctx : Context} {mech : Mechanism} {recoverMode pSignature : Bool} {key : Nat}
  {data : Message} {signatureLen : BitVec 64} {past : List (Call × Rv)}

theorem underWayNext {x : Call × Rv} : UnderWay (past ++ [x]) ↔ Begins x ∨ UnderWay past ∧ ¬ Finishes x := by
  constructor
  · rintro ⟨before, first, after, line, begins, kept⟩
    rcases List.eq_nil_or_concat after with rfl | ⟨rest, y, rfl⟩
    · have last := List.append_inj_right' line rfl
      cases last
      exact .inl begins
    · rw [List.concat_eq_append, ← List.cons_append, ← List.append_assoc] at line
      obtain ⟨rfl, last⟩ := List.append_inj' line rfl
      cases last
      rw [List.concat_eq_append, List.forall_mem_append] at kept
      exact .inr ⟨⟨before, first, rest, rfl, begins, kept.1⟩, kept.2 _ List.mem_cons_self⟩
  · rintro (begins | ⟨⟨before, first, after, rfl, begins, kept⟩, stays⟩)
    · exact ⟨past, x, [], rfl, begins, by simp⟩
    · refine ⟨before, first, after ++ [x], by simp, begins, ?_⟩
      rw [List.forall_mem_append]
      exact ⟨kept, by simpa using stays⟩

def Fit (ctx : Context) : Prop := ctx.active = true → ctx.mech.mechanism ∈ rsaMechanisms

theorem checkedMechanism (checked : signChecks env mech key = .ok) : mech.mechanism ∈ rsaMechanisms := by
  unfold signChecks at checked
  dsimp only at checked
  by_contra unknown
  simp only [unknown, not_false_eq_true, if_true] at checked
  generalize getAttrValue env key [⟨ckaSign, none⟩] = first at checked
  generalize getAttrValue env key [⟨ckaAllowedMechanisms, none⟩, ⟨ckaKeyType, none⟩, ⟨ckaClass, none⟩] = lengths
    at checked
  generalize getAttrValue env key _ = attrs at checked
  split at checked
  · cases checked
  split at checked
  · next wrong => exact wrong checked
  split at checked
  · cases checked
  split at checked
  · next wrong => exact wrong checked
  split at checked
  · cases checked
  split at checked <;> cases checked

theorem signInitCases : ((signInit env ctx mech recoverMode key).1 = .ok ∧
      (signInit env ctx mech recoverMode key).2.active = true ∧
      (signInit env ctx mech recoverMode key).2.mech.mechanism ∈ rsaMechanisms) ∨
    (signInit env ctx mech recoverMode key).1 ≠ .ok ∧
      (signInit env ctx mech recoverMode key).2.active = ctx.active ∧
      (signInit env ctx mech recoverMode key).2.mech = ctx.mech := by
  unfold signInit
  by_cases active : ctx.active = true
  · rw [if_pos active]
    exact .inr ⟨by simp, rfl, rfl⟩
  rw [if_neg active]
  by_cases checked : signChecks env mech key = .ok
  · rw [if_neg (not_not.mpr checked)]
    dsimp only
    split
    · exact .inr ⟨by simp, rfl, rfl⟩
    · exact .inl ⟨rfl, rfl, checkedMechanism checked⟩
  · rw [if_pos checked]
    exact .inr ⟨checked, rfl, rfl⟩

theorem signCases (fit : Fit ctx) : (ctx.active = false ∧ (sign env ctx data pSignature signatureLen).2 = ctx) ∨
    ∃ o, ctx.active = true ∧ sign env ctx data pSignature signatureLen = signed ctx pSignature o := by
  unfold sign
  split
  · next idle => exact .inl ⟨idle, rfl⟩
  · next active =>
    have isActive : ctx.active = true := by simpa using active
    split
    · exact .inr ⟨_, isActive, rfl⟩
    · rw [if_pos (fit isActive)]
      exact .inr ⟨_, isActive, rfl⟩

theorem signedActive (o : Outcome) (active : ctx.active = true) :
    (signed ctx pSignature o).2.active = true ↔ (o.rc = .ok ∧ pSignature = false) ∨ o.rc = .bufferTooSmall := by
  unfold signed
  split
  · next stays => exact iff_of_true active stays
  · next ends => exact iff_of_false (by simp [Context.clear]) ends

theorem callFit (fit : Fit ctx) (c : Call) : Fit (c.run ctx).2 := by
  cases c with
  | signInit env mech recoverMode key =>
    rcases @signInitCases env ctx mech recoverMode key with ⟨_, _, known⟩ | ⟨_, same, kept⟩
    · exact fun _ => known
    · intro active
      rw [Call.run, kept]
      exact fit (same ▸ active)
  | sign env data pSignature signatureLen =>
    simp only [Call.run]
    rcases @signCases env ctx pSignature data signatureLen fit with ⟨_, same⟩ | ⟨o, _, ran⟩
    · rw [same]
      exact fit
    · rw [ran]
      unfold signed
      split
      · exact fit
      · exact fun active => by cases active

theorem callActive (fit : Fit ctx) (c : Call) : (c.run ctx).2.active = true ↔
    Begins (c, (c.run ctx).1) ∨ ctx.active = true ∧ ¬ Finishes (c, (c.run ctx).1) := by
  cases c with
  | signInit env mech recoverMode key =>
    simp only [Call.run, Begins, Finishes, not_false_eq_true, and_true]
    rcases @signInitCases env ctx mech recoverMode key with ⟨fine, active, _⟩ | ⟨wrong, same, _⟩
    · exact iff_of_true active (.inl fine)
    · rw [same]
      simp [wrong]
  | sign env data pSignature signatureLen =>
    simp only [Call.run, Begins, Finishes, false_or]
    rcases @signCases env ctx pSignature data signatureLen fit with ⟨idle, same⟩ | ⟨o, active, ran⟩
    · rw [same, idle]
      simp
    · rw [ran, signedActive o active, active]
      have answer : (signed ctx pSignature o).1 = o := by
        unfold signed
        split <;> rfl
      rw [answer]
      tauto

-- The induction adds calls at the end; what it carries is the fitness of the context.
theorem historyActive (calls : List Call) : Fit (history calls).2 ∧
    ((history calls).2.active = true ↔ UnderWay (history calls).1) := by
  induction calls using List.reverseRec with
  | nil =>
    refine ⟨fun active => by (cases active), iff_of_false (by simp [history, Context.zero]) ?_⟩
    rintro ⟨before, first, after, line, _⟩
    simp [history] at line
  | append_singleton calls c ih =>
    have next : history (calls ++ [c]) = ((history calls).1 ++ [(c, (c.run (history calls).2).1)],
        (c.run (history calls).2).2) := by
      simp [history]
    rw [next]
    refine ⟨callFit ih.1 c, ?_⟩
    rw [callActive ih.1 c, underWayNext, ih.2]

end Protocol

section Padding

namespace Block

variable {b : Block}

theorem copyAppend (l m : List Byte) : ∀ i b, copy i (l ++ m) b = copy (i + l.length) m (copy i l b) := by
  induction l with
  | nil => exact fun _ _ => rfl
  | cons v rest later =>
    intro i b
    rw [List.cons_append, copy, copy, later, List.length_cons]
    congr 1
    omega

theorem fillCopy (n : Nat) : ∀ i b, fill i n b = copy i (List.replicate n 0xFF) b := by
  induction n with
  | zero => exact fun _ _ => rfl
  | succ n later =>
    intro i b
    rw [fill, later, List.replicate_succ, copy]

theorem copyBelow (l : List Byte) : ∀ i b j, j < i → (copy i l b).bytes j = b.bytes j := by
  induction l with
  | nil => exact fun _ _ _ _ => rfl
  | cons v rest later =>
    intro i b j below
    rw [copy, later _ _ _ (by omega)]
    exact Function.update_of_ne (by omega) _ _

theorem copyRead (l : List Byte) : ∀ i b, (List.range' i l.length).map (copy i l b).bytes = l := by
  induction l with
  | nil => exact fun _ _ => rfl
  | cons v rest later =>
    intro i b
    rw [copy, List.length_cons, List.range'_succ, List.map_cons, later, copyBelow rest _ _ i (by omega)]
    have first : (b.write i v).bytes i = v := by simp [Block.write]
    rw [first]

theorem copyInside (l : List Byte) : ∀ i b, i + l.length ≤ maxRsaKeylen → (copy i l b).outside = b.outside := by
  induction l with
  | nil => exact fun _ _ _ => rfl
  | cons v rest later =>
    intro i b room
    rw [List.length_cons] at room
    rw [copy, later _ _ (by omega)]
    have inside : ¬ maxRsaKeylen ≤ i := by omega
    simp [write, inside]

end Block

def padded (k : Nat) (message : List Byte) : List Byte :=
  [0, 1] ++ List.replicate (k - 3 - message.length) 0xFF ++ [0] ++ message

theorem paddedLength {k : Nat} {message : List Byte} (room : message.length + 11 ≤ k) :
    (padded k message).length = k := by
  simp only [padded, List.length_append, List.length_replicate, List.length_cons, List.length_nil]
  omega

theorem blockPadded (stack : Nat → Byte) {n k : Nat} {message : List Byte} (count : n = k - 3 - message.length) :
    ((((Block.mk stack false).write 0 0).write 1 1).fill 2 n |>.write (2 + n) 0).copy (2 + n + 1) message =
      Block.copy 0 (padded k message) ⟨stack, false⟩ := by
  have length : ([0, 1] ++ List.replicate (k - 3 - message.length) (0xFF : Byte)).length = 2 + n := by
    simp [count]
    omega
  rw [padded, Block.copyAppend, Block.copyAppend, Block.copyAppend, Block.fillCopy, List.length_append, length,
    ← count]
  simp [Block.copy]

variable {env : Env} {ctx : Context} {data : Message} {pSignature : Bool} {signatureLen : BitVec 64}
  {o : Object} {a : Attribute}

theorem modulusAnswer (isKey : env.objects ctx.key = some o)
    (isModulus : templateCheckAttr ckaModulus o.templateList = some a) :
    (∃ rc, rc ≠ .ok ∧ (getAttrValue env ctx.key [⟨ckaModulus, none⟩]).1 = rc) ∨
    getAttrValue env ctx.key [⟨ckaModulus, none⟩] = (.ok, [⟨BitVec.ofNat 64 a.value.length, []⟩]) := by
  unfold getAttrValue
  rw [if_neg (by simp)]
  split
  · exact .inl ⟨_, by simp, rfl⟩
  · rw [isKey]
    simp only [List.map_cons, List.map_nil, readAttr, isModulus]
    split
    · exact .inl ⟨.attributeSensitive, by simp, rfl⟩
    · exact .inr rfl

theorem withoutPaddingLe : (l : List Byte) → (withoutPadding l).length ≤ l.length
  | [] => le_refl _
  | [_] => le_refl _
  | b :: c :: rest => by
    rw [withoutPadding]
    split
    · exact (withoutPaddingLe (c :: rest)).trans (Nat.le_succ _)
    · exact le_refl _

theorem withoutPaddingWhole {l : List Byte} (several : 2 ≤ l.length) :
    (withoutPadding l).length = l.length ↔ l.head? ≠ some 0 := by
  match l, several with
  | b :: c :: rest, _ =>
    rw [withoutPadding]
    split
    · rename_i zero
      have shorter := withoutPaddingLe (c :: rest)
      simp only [List.length_cons, List.head?_cons, zero, ne_eq, not_true_eq_false, iff_false] at shorter ⊢
      omega
    · rename_i first
      simpa using first

-- What a call of `rsa_sign_pkcs` is to do with its block for a modulus of `k` bytes.
structure Pads (k : Nat) (message : List Byte) (pSignature : Bool) (r : Outcome) : Prop where
  inside : r.outside = false
  handed : r.handed = none ∧ (r.rc ≠ .ok ∨ pSignature = false) ∨
    ∃ input, r.handed = some input ∧ input.data = padded k message ∧ (padded k message).length = k ∧
      8 ≤ k - 3 - message.length

-- `power` is what `rsa_exptmod` makes of a block.
structure Signs (power : List Byte → List Byte) (k : Nat) (message : List Byte) (pSignature : Bool) (r : Outcome) : Prop
    extends Pads k message pSignature r where
  length : r.rc = .ok → if pSignature = false then r.signatureLen.toNat = k
    else r.signatureLen.toNat = (withoutPadding (power (padded k message))).length ∧
      (r.signatureLen.toNat = k ↔ (power (padded k message)).head? ≠ some 0)

theorem Signs.refused {power : List Byte → List Byte} {k : Nat} {message : List Byte} {rc : Rv} (wrong : rc ≠ .ok) :
    Signs power k message pSignature ⟨rc, signatureLen, none, false⟩ :=
  ⟨⟨rfl, .inl ⟨rfl, .inl wrong⟩⟩, fun fine => (wrong fine).elim⟩

theorem rsaSignPads {power : List Byte → List Byte} (isKey : env.objects ctx.key = some o)
    (isModulus : templateCheckAttr ckaModulus o.templateList = some a) (least : 11 ≤ a.value.length)
    (most : a.value.length ≤ maxRsaKeylen) (short : signatureLen.toNat < 65536)
    (whole : ∀ input, (power input).length = a.value.length)
    (answers : ∀ sk input room signature, env.functions = some sk →
      sk.decrypt skmRsaPkcsNopad o.skObjHandle input room = some signature →
        rsadorep (power input) room.toNat = some signature) :
    Signs power a.value.length data.bytes pSignature (rsaSignPkcs env ctx data pSignature signatureLen) := by
  have fits := data.fits
  unfold maxRsaKeylen at most
  unfold rsaSignPkcs
  dsimp only
  rcases @modulusAnswer env ctx o a isKey isModulus with ⟨rc, wrong, answer⟩ | answer
  · rw [answer, if_pos wrong]
    exact Signs.refused wrong
  rw [answer, if_neg (by simp)]
  simp only [List.getElem?_cons_zero, Option.map_some, Option.getD_some]
  have size : (BitVec.ofNat 64 a.value.length).toNat = a.value.length := by
    rw [BitVec.toNat_ofNat]
    exact Nat.mod_eq_of_lt (by omega)
  have dataSize : (BitVec.ofNat 64 data.bytes.length).toNat = data.bytes.length := by
    rw [BitVec.toNat_ofNat]
    exact Nat.mod_eq_of_lt fits
  split
  · next absent => exact ⟨⟨rfl, .inl ⟨rfl, .inr absent⟩⟩, fun _ => by rwa [if_pos absent]⟩
  next present =>
  split
  · exact Signs.refused (by simp)
  next enough =>
  split
  · exact Signs.refused (by simp)
  next fitting =>
  have room : data.bytes.length + 11 ≤ a.value.length := by
    rw [BitVec.lt_def, BitVec.toNat_sub_of_le (by rw [BitVec.le_def, size]; exact least), size, dataSize] at fitting
    simp only [BitVec.reduceToNat] at fitting
    omega
  have count : (BitVec.ofNat 64 a.value.length - 3 - BitVec.ofNat 64 data.bytes.length + 2).toNat - 2 =
      a.value.length - 3 - data.bytes.length := by
    rw [BitVec.toNat_add, BitVec.toNat_sub_of_le, BitVec.toNat_sub_of_le, size, dataSize]
    · simp only [BitVec.reduceToNat]
      omega
    · rw [BitVec.le_def, size]
      simp only [BitVec.reduceToNat]
      omega
    · rw [BitVec.le_def, BitVec.toNat_sub_of_le (by rw [BitVec.le_def, size]; simp only [BitVec.reduceToNat]; omega),
        size, dataSize]
      simp only [BitVec.reduceToNat]
      omega
  have block := @blockPadded env.stack _ a.value.length data.bytes rfl
  have length := paddedLength room
  rw [count, block, isKey]
  have inside : (Block.copy 0 (padded a.value.length data.bytes) ⟨env.stack, false⟩).outside = false :=
    Block.copyInside _ _ _ (by rw [length]; unfold maxRsaKeylen; omega)
  have input : (Block.copy 0 (padded a.value.length data.bytes) ⟨env.stack, false⟩).read
      ((BitVec.ofNat 64 a.value.length).setWidth 16).toNat = padded a.value.length data.bytes := by
    have width : ((BitVec.ofNat 64 a.value.length).setWidth 16).toNat = a.value.length := by
      rw [BitVec.toNat_setWidth, size]
      exact Nat.mod_eq_of_lt (by omega)
    have all := Block.copyRead (padded a.value.length data.bytes) 0 ⟨env.stack, false⟩
    rw [length, ← List.range_eq_range'] at all
    rw [width]
    exact all
  cases functions : env.functions with
  | none => exact ⟨⟨inside, .inl ⟨rfl, .inl (by simp)⟩⟩, fun fine => by cases fine⟩
  | some sk =>
    dsimp only
    rw [input]
    cases decrypted : sk.decrypt skmRsaPkcsNopad o.skObjHandle (padded a.value.length data.bytes)
        (signatureLen.setWidth 16) with
    | none => exact ⟨⟨inside, .inr ⟨_, rfl, rfl, length, by omega⟩⟩, fun fine => by cases fine⟩
    | some signature =>
      have answer := answers sk _ _ signature functions decrypted
      unfold rsadorep at answer
      split at answer
      · cases answer
      cases answer
      have shorter := withoutPaddingLe (power (padded a.value.length data.bytes))
      rw [whole] at shorter
      have stored : (storeLow signatureLen (withoutPadding (power (padded a.value.length data.bytes))).length).toNat =
          (withoutPadding (power (padded a.value.length data.bytes))).length := by
        have none : signatureLen.toNat >>> 16 = 0 := by
          rw [Nat.shiftRight_eq_div_pow]
          exact Nat.div_eq_of_lt short
        rw [storeLow, BitVec.toNat_append, BitVec.extractLsb'_toNat, BitVec.toNat_ofNat, none,
          Nat.mod_eq_of_lt (by omega : _ < 2 ^ 16)]
        simp
      refine ⟨⟨inside, .inr ⟨_, rfl, rfl, length, by omega⟩⟩, fun _ => ?_⟩
      rw [if_neg present, stored, ← withoutPaddingWhole (by rw [whole]; omega), whole]
      exact ⟨rfl, Iff.rfl⟩

end Padding

theorem signingSound : (∀ calls, (history calls).2.active = true ↔ UnderWay (history calls).1) ∧
    ∀ (env : Env) (ctx : Context) (data : Message) (pSignature : Bool) (signatureLen : BitVec 64) (o : Object)
      (a : Attribute) (power : List Byte → List Byte), env.objects ctx.key = some o →
      templateCheckAttr ckaModulus o.templateList = some a →
      11 ≤ a.value.length → a.value.length ≤ maxRsaKeylen → signatureLen.toNat < 65536 →
      (∀ input, (power input).length = a.value.length) →
      (∀ sk input room signature, env.functions = some sk →
        sk.decrypt skmRsaPkcsNopad o.skObjHandle input room = some signature →
          rsadorep (power input) room.toNat = some signature) →
      Signs power a.value.length data.bytes pSignature (rsaSignPkcs env ctx data pSignature signatureLen) :=
  ⟨fun calls => (historyActive calls).2, fun _ _ _ _ _ _ _ _ isKey isModulus least most short whole answers =>
    rsaSignPads isKey isModulus least most short whole answers⟩

section Example

def exampleKey (modulus : Option Nat) : Object :=
  ⟨7, .privateKey, [⟨ckaSign, bbool true⟩, ⟨ckaAllowedMechanisms, ulongBytes ckmRsaPkcs⟩,
    ⟨ckaKeyType, ulongBytes ckkRsa⟩, ⟨ckaClass, ulongBytes ckoPrivateKey⟩, ⟨ckaSensitive, bbool true⟩,
    ⟨ckaExtractable, bbool false⟩] ++
    (modulus.map fun n => (⟨ckaModulus, List.replicate n 0xC5⟩ : Attribute)).toList⟩

def examplePower (first : Byte) (n : Nat) (_ : List Byte) : List Byte := (first :: List.replicate n 0x5A).take n

def exampleFunctions (first : Byte) (n : Nat) : SkFunctions :=
  ⟨fun _ _ _ => none, fun _ _ _ _ => none, fun _ _ input room => rsadorep (examplePower first n input) room.toNat⟩

def exampleEnv (modulus : Option Nat) (first : Byte) : Env :=
  ⟨true, fun h => if h = 1 then some (exampleKey modulus) else none, some (exampleFunctions first (modulus.getD 0)),
    true, true, fun _ => 0⟩

def exampleContext : Context := ⟨1, ⟨ckmRsaPkcs, []⟩, none, 0, false, false, true⟩

def exampleMessage : Message := ⟨[0x41], by decide⟩

def beginCall (modulus : Option Nat) : Call := .signInit (exampleEnv modulus 1) ⟨ckmRsaPkcs, []⟩ false 1

def askCall (modulus : Option Nat) : Call := .sign (exampleEnv modulus 1) exampleMessage false 0

theorem signingSoundOnce : Signs (examplePower 1 64) 64 [0x41] true
    (rsaSignPkcs (exampleEnv (some 64) 1) exampleContext exampleMessage true 64) :=
  signingSound.2 (exampleEnv (some 64) 1) exampleContext exampleMessage true 64 (exampleKey (some 64))
    ⟨ckaModulus, List.replicate 64 0xC5⟩ (examplePower 1 64) rfl rfl (by simp) (by simp [maxRsaKeylen]) (by decide)
    (fun _ => rfl) (by
      intro sk input room signature functions answer
      cases functions
      exact answer)

end Example

section AsStated

def IsInit : Call × Rv → Prop
  | (.signInit .., _) => True
  | (.sign .., _) => False

-- The last `sign_init` succeeded, and every `sign` since had no buffer or is told that its buffer is too small.
def StatedUnderWay (past : List (Call × Rv)) : Prop :=
  ∃ before first after, past = before ++ first :: after ∧ Begins first ∧
    ∀ x ∈ after, ¬ IsInit x ∧ match x with
      | (.signInit .., _) => True
      | (.sign _ _ pSignature _, rc) => pSignature = false ∨ rc = .bufferTooSmall

theorem statedSecond {x y : Call × Rv} : StatedUnderWay [x, y] ↔ Begins y ∨ Begins x ∧ ¬ IsInit y ∧
    match y with
      | (.signInit .., _) => True
      | (.sign _ _ pSignature _, rc) => pSignature = false ∨ rc = .bufferTooSmall := by
  constructor
  · rintro ⟨before, first, after, line, begins, rest⟩
    match before, line with
    | [], line =>
      cases line
      exact .inr ⟨begins, rest y List.mem_cons_self⟩
    | [_], line =>
      cases line
      exact .inl begins
    | _ :: _ :: tail, line =>
      have lengths := congrArg List.length line
      simp at lengths
  · rintro (begins | ⟨begins, rest⟩)
    · exact ⟨[x], y, [], rfl, begins, by simp⟩
    · exact ⟨[], x, [y], rfl, begins, by simpa using rest⟩

def StatedPads (k : Nat) (message : List Byte) (pSignature : Bool) (r : Outcome) : Prop :=
  Pads k message pSignature r ∧ (r.rc = .ok → r.signatureLen.toNat = k)

-- A refused `sign_init` leaves the operation active, a failed question for the length ends it; moduli of 10 and 513
-- bytes, a longer `*pulSignatureLen`, and a signature that begins with a zero byte.
theorem statedFails :
    ¬ ((history [beginCall (some 64), beginCall (some 64)]).2.active = true ↔
      StatedUnderWay (history [beginCall (some 64), beginCall (some 64)]).1) ∧
    ¬ ((history [beginCall none, askCall none]).2.active = true ↔
      StatedUnderWay (history [beginCall none, askCall none]).1) ∧
    ¬ StatedPads 10 [0x41] true (rsaSignPkcs (exampleEnv (some 10) 1) exampleContext exampleMessage true 10) ∧
    ¬ StatedPads 513 [0x41] true (rsaSignPkcs (exampleEnv (some 513) 1) exampleContext exampleMessage true 513) ∧
    ¬ StatedPads 64 [0x41] true (rsaSignPkcs (exampleEnv (some 64) 1) exampleContext exampleMessage true 65600) ∧
    ¬ StatedPads 64 [0x41] true (rsaSignPkcs (exampleEnv (some 64) 0) exampleContext exampleMessage true 64) := by
  have began : ((beginCall (some 64)).run .zero).1 = .ok := by decide
  have again : ((beginCall (some 64)).run ((beginCall (some 64)).run .zero).2).1 = .operationActive := by
    decide
  have active : ((beginCall (some 64)).run ((beginCall (some 64)).run .zero).2).2.active = true := by decide
  have bare : ((beginCall none).run .zero).1 = .ok := by decide
  have idle : ((askCall none).run ((beginCall none).run .zero).2).2.active = false := by decide
  refine ⟨fun same => ?_, fun same => ?_, fun pads => ?_, fun pads => ?_, fun pads => ?_, fun pads => ?_⟩
  · have stated := statedSecond.mp (same.mp active)
    rw [again] at stated
    rcases stated with wrong | ⟨_, no, _⟩
    · cases wrong
    · exact no trivial
  · have stated := same.mpr (statedSecond.mpr (.inr ⟨bare, id, .inl rfl⟩))
    have ended : (history [beginCall none, askCall none]).2.active = false := idle
    rw [ended] at stated
    cases stated
  · have handed : (rsaSignPkcs (exampleEnv (some 10) 1) exampleContext exampleMessage true 10).handed.isSome = true := by
      decide
    rcases pads.1.handed with ⟨without, _⟩ | ⟨_, _, _, _, few⟩
    · rw [without] at handed
      cases handed
    · simp at few
  · have beyond : (rsaSignPkcs (exampleEnv (some 513) 1) exampleContext exampleMessage true 513).outside = true := by
      decide +kernel
    rw [pads.1.inside] at beyond
    cases beyond
  · have left : (rsaSignPkcs (exampleEnv (some 64) 1) exampleContext exampleMessage true 65600).rc = .ok ∧
        (rsaSignPkcs (exampleEnv (some 64) 1) exampleContext exampleMessage true 65600).signatureLen.toNat = 65600 := by
      decide
    exact absurd (left.2.symm.trans (pads.2 left.1)) (by decide)
  · have left : (rsaSignPkcs (exampleEnv (some 64) 0) exampleContext exampleMessage true 64).rc = .ok ∧
        (rsaSignPkcs (exampleEnv (some 64) 0) exampleContext exampleMessage true 64).signatureLen.toNat = 63 := by
      decide
    exact absurd (left.2.symm.trans (pads.2 left.1)) (by decide)

end AsStated
end Flexbuild.Signing
