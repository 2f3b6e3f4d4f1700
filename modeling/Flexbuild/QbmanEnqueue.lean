import Mathlib.Logic.Function.Basic
import Mathlib.Data.Nat.Bitwise
import Mathlib.Tactic.Linarith

/-! The enqueue ring of a QBMan software portal. Software writes descriptors and frames into
eight slots at an index that runs modulo sixteen; the hardware takes them in order. -/
namespace Flexbuild.Qbman

def qbValidBit : Nat := 0x80
def qbmanEqcrSize : Nat := 8

def qmCycDiff (ringsize first last : Nat) : Nat :=
  if first ≤ last then last - first else 2 * ringsize + last - first

section Descriptors

def orpEnable : Nat := 1 <<< 2
def irqOnDispatch : Nat := 1 <<< 3
def targetType : Nat := 1 <<< 4
def dcaPark : Nat := 1 <<< 6
def dcaEnable : Nat := 1 <<< 7
def ecOptionMask : Nat := 0x3
def nlis : Nat := 1 <<< 14
def isNesn : Nat := 1 <<< 15

-- The values of `enqueue_response_always` and `enqueue_rejects_to_fq`.
def responseOption (respondSuccess : Bool) : Nat := if respondSuccess then 1 else 2

def clearBits (w x mask : Nat) : Nat := x &&& (2 ^ w - 1 - mask)

structure EqDesc where
  verb : Nat
  dca : Nat
  seqnum : Nat
  orpid : Nat
  tgtid : Nat
  tag : Nat
  qdbin : Nat
  qpri : Nat
  wae : Nat
  rspid : Nat
  rspAddr : Nat
  deriving DecidableEq, Repr

def EqDesc.clear : EqDesc := ⟨0, 0, 0, 0, 0, 0, 0, 0, 0, 0, 0⟩

def EqDesc.setNoOrp (d : EqDesc) (respondSuccess : Bool) : EqDesc :=
  { d with verb := clearBits 8 d.verb orpEnable ||| responseOption respondSuccess }

def EqDesc.setOrp (d : EqDesc) (respondSuccess : Bool) (oprId seqnum : Nat) (incomplete : Bool) :
    EqDesc :=
  { d with
    verb := d.verb ||| orpEnable ||| responseOption respondSuccess
    orpid := oprId
    seqnum := if incomplete then seqnum ||| nlis else clearBits 16 seqnum nlis }

def EqDesc.setOrpHole (d : EqDesc) (oprId seqnum : Nat) : EqDesc :=
  { d with
    verb := clearBits 8 (d.verb ||| orpEnable) ecOptionMask
    orpid := oprId
    seqnum := clearBits 16 (clearBits 16 seqnum nlis) isNesn }

def EqDesc.setOrpNesn (d : EqDesc) (oprId seqnum : Nat) : EqDesc :=
  { d with
    verb := clearBits 8 (d.verb ||| orpEnable) ecOptionMask
    orpid := oprId
    seqnum := clearBits 16 seqnum nlis ||| isNesn }

def EqDesc.setResponse (d : EqDesc) (storagePhys stash : Nat) : EqDesc :=
  { d with rspAddr := storagePhys, wae := stash }

def EqDesc.setToken (d : EqDesc) (token : Nat) : EqDesc := { d with rspid := token }

def EqDesc.setFq (d : EqDesc) (fqid : Nat) : EqDesc :=
  { d with verb := clearBits 8 d.verb targetType, tgtid := fqid }

def EqDesc.setQd (d : EqDesc) (qdid qdBin qdPrio : Nat) : EqDesc :=
  { d with verb := d.verb ||| targetType, tgtid := qdid, qdbin := qdBin, qpri := qdPrio }

def EqDesc.setEqdi (d : EqDesc) (enable : Bool) : EqDesc :=
  { d with verb := if enable then d.verb ||| irqOnDispatch else clearBits 8 d.verb irqOnDispatch }

def EqDesc.setDca (d : EqDesc) (enable : Bool) (dqrrIdx : Nat) (park : Bool) : EqDesc :=
  if enable then
    { d with dca := (if park then dqrrIdx ||| dcaPark else clearBits 8 dqrrIdx dcaPark) ||| dcaEnable }
  else { d with dca := clearBits 8 d.dca dcaEnable }

inductive EqDesc.Built : EqDesc → Prop where
  | clear : Built .clear
  | setNoOrp {d} (r) : Built d → Built (d.setNoOrp r)
  | setOrp {d} (r o s i) : Built d → Built (d.setOrp r o s i)
  | setOrpHole {d} (o s) : Built d → Built (d.setOrpHole o s)
  | setOrpNesn {d} (o s) : Built d → Built (d.setOrpNesn o s)
  | setResponse {d} (a s) : Built d → Built (d.setResponse a s)
  | setToken {d} (t) : Built d → Built (d.setToken t)
  | setFq {d} (f) : Built d → Built (d.setFq f)
  | setQd {d} (q b p) : Built d → Built (d.setQd q b p)
  | setEqdi {d} (e) : Built d → Built (d.setEqdi e)
  | setDca {d} (e i p) : Built d → Built (d.setDca e i p)

def EqDesc.word0 (d : EqDesc) : Nat := d.verb ||| d.dca <<< 8 ||| d.seqnum <<< 16

def EqDesc.tail (d : EqDesc) : List Nat :=
  [d.orpid, d.tgtid, d.tag, d.qdbin ||| d.qpri <<< 16, d.wae <<< 16 ||| d.rspid <<< 24,
    d.rspAddr % 2 ^ 32, d.rspAddr / 2 ^ 32]

theorem clearBitsTest {w x mask i : Nat} (off : x.testBit i = false) :
    (clearBits w x mask).testBit i = false := by
  unfold clearBits
  rw [Nat.testBit_and, off, Bool.false_and]

theorem orTest {x y i : Nat} (offX : x.testBit i = false) (offY : y.testBit i = false) :
    (x ||| y).testBit i = false := by
  rw [Nat.testBit_or, offX, offY]
  rfl

theorem responseTest (r : Bool) : (responseOption r).testBit 7 = false := by
  cases r <;> decide

theorem builtVerb {d : EqDesc} (built : d.Built) : d.verb.testBit 7 = false := by
  induction built with
  | clear => decide
  | setNoOrp r _ ih => exact orTest (clearBitsTest ih) (responseTest r)
  | setOrp r o s i _ ih => exact orTest (orTest ih (by decide)) (responseTest r)
  | setOrpHole o s _ ih => exact clearBitsTest (orTest ih (by decide))
  | setOrpNesn o s _ ih => exact clearBitsTest (orTest ih (by decide))
  | setResponse a s _ ih => exact ih
  | setToken t _ ih => exact ih
  | setFq f _ ih => exact clearBitsTest ih
  | setQd q b p _ ih => exact orTest ih (by decide)
  | setEqdi e _ ih =>
    cases e with
    | true => exact orTest ih (by decide)
    | false => exact clearBitsTest ih
  | setDca e i p _ ih => cases e <;> exact ih

theorem builtWord {d : EqDesc} (built : d.Built) : d.word0.testBit 7 = false := by
  refine orTest (orTest (builtVerb built) ?_) ?_
  · rw [Nat.testBit_shiftLeft]
    rfl
  · rw [Nat.testBit_shiftLeft]
    rfl

end Descriptors

variable {F : Type}

structure Entry (F : Type) where
  word0 : Nat
  words : List Nat
  frame : F
  deriving DecidableEq, Repr

def Entry.validBit (e : Entry F) : Nat := e.word0 &&& qbValidBit

structure Eqcr where
  pi : Nat
  piVb : Nat
  ci : Nat
  available : Int
  deriving DecidableEq, Repr

structure Portal (F : Type) where
  eqcr : Eqcr
  ring : Nat → Entry F
  hwCi : Nat
  written : List Nat

def Portal.init (eqcrPi eqcrCi : Nat) (ring : Nat → Entry F) : Portal F :=
  let pi := eqcrPi &&& 0xF
  let ci := eqcrCi &&& 0xF
  ⟨⟨pi, eqcrPi &&& qbValidBit, ci,
    (qbmanEqcrSize : Int) - qmCycDiff qbmanEqcrSize ci pi⟩, ring, ci, []⟩

def outstanding (hwCi pi : Nat) : Nat := (pi + 16 - hwCi) % 16

def overruns (hwCi pi : Nat) : Bool :=
  (List.range (outstanding hwCi pi)).any (fun k => decide ((hwCi + k) % 16 &&& 7 = pi &&& 7))

def fill (hwCi pi : Nat) (d : EqDesc) (frame : F) (ring : Nat → Entry F) : Option (Nat → Entry F) :=
  if overruns hwCi pi then none
  else some (Function.update ring (pi &&& 7) { ring (pi &&& 7) with words := d.tail, frame := frame })

def setVerb (hwCi pi : Nat) (word : Nat) (ring : Nat → Entry F) : Option (Nat → Entry F) :=
  if overruns hwCi pi then none
  else some (Function.update ring (pi &&& 7) { ring (pi &&& 7) with word0 := word })

def refresh (hwCi : Nat) (q : Eqcr) : Option Eqcr :=
  if q.available = 0 then
    let diff := qmCycDiff qbmanEqcrSize q.ci hwCi
    if diff = 0 then none else some { q with ci := hwCi, available := q.available + diff }
  else some q

def Portal.enqueueRingMode (s : Portal F) (d : EqDesc) (frame : F) : Option (Portal F × Bool) :=
  match refresh s.hwCi s.eqcr with
  | none => some ({ s with eqcr := { s.eqcr with ci := s.hwCi } }, false)
  | some q => do
      let ring ← fill s.hwCi q.pi d frame s.ring
      let ring ← setVerb s.hwCi q.pi (d.word0 ||| q.piVb) ring
      let pi := (q.pi + 1) &&& 0xF
      some ({ s with
        eqcr :=
          { q with
            pi := pi
            available := q.available - 1
            piVb := if pi &&& 7 = 0 then q.piVb ^^^ qbValidBit else q.piVb }
        ring := ring
        written := s.written ++ [(ring (q.pi &&& 7)).validBit] }, true)

def fillLoop (hwCi : Nat) : List (EqDesc × F) → Nat → (Nat → Entry F) → Option (Nat → Entry F)
  | [], _, ring => some ring
  | (d, frame) :: rest, pi, ring => do
      let ring ← fill hwCi pi d frame ring
      fillLoop hwCi rest ((pi + 1) &&& 0xF) ring

def verbLoop (hwCi : Nat) : List (EqDesc × F) → Nat → Nat → (Nat → Entry F) →
    Option (Nat × (Nat → Entry F))
  | [], _, vb, ring => some (vb, ring)
  | (d, _) :: rest, pi, vb, ring => do
      let ring ← setVerb hwCi pi (d.word0 ||| vb) ring
      let pi := (pi + 1) &&& 0xF
      verbLoop hwCi rest pi (if pi &&& 7 = 0 then vb ^^^ qbValidBit else vb) ring

def flushLoop {α : Type} : List α → Nat → Nat
  | [], pi => pi
  | _ :: rest, pi => flushLoop rest ((pi + 1) &&& 0xF)

def slotsFrom {α : Type} : List α → Nat → List Nat
  | [], _ => []
  | _ :: rest, pi => (pi &&& 7) :: slotsFrom rest ((pi + 1) &&& 0xF)

-- The body `qbman_swp_enqueue_multiple` and `qbman_swp_enqueue_multiple_desc` share.
def Portal.enqueueBatch (s : Portal F) (items : List (EqDesc × F)) : Option (Portal F × Nat) :=
  match refresh s.hwCi s.eqcr with
  | none => some ({ s with eqcr := { s.eqcr with ci := s.hwCi } }, 0)
  | some q => do
      let numEnqueued := if q.available < items.length then q.available.toNat else items.length
      let batch := items.take numEnqueued
      let ring ← fillLoop s.hwCi batch q.pi s.ring
      let (vb, ring) ← verbLoop s.hwCi batch q.pi q.piVb ring
      some ({ s with
        eqcr :=
          { q with
            pi := flushLoop batch q.pi
            available := q.available - numEnqueued
            piVb := vb }
        ring := ring
        written := s.written ++ (slotsFrom batch q.pi).map (fun slot => (ring slot).validBit) },
        numEnqueued)

def Portal.enqueueMultiple (s : Portal F) (d : EqDesc) (frames : List F) : Option (Portal F × Nat) :=
  s.enqueueBatch (frames.map (fun frame => (d, frame)))

def Portal.enqueueMultipleDesc (s : Portal F) (items : List (EqDesc × F)) : Option (Portal F × Nat) :=
  s.enqueueBatch items

inductive Step (F : Type) where
  | enqueue (d : EqDesc) (frame : F)
  | enqueueMultiple (d : EqDesc) (frames : List F)
  | enqueueMultipleDesc (items : List (EqDesc × F))
  | hardware (n : Nat)
  deriving Repr

def Portal.step (s : Portal F) : Step F → Option (Portal F)
  | .enqueue d frame => (s.enqueueRingMode d frame).map Prod.fst
  | .enqueueMultiple d frames => (s.enqueueMultiple d frames).map Prod.fst
  | .enqueueMultipleDesc items => (s.enqueueMultipleDesc items).map Prod.fst
  | .hardware n =>
      some { s with hwCi := (s.hwCi + min n (outstanding s.hwCi s.eqcr.pi)) % 16 }

def Portal.run (s : Portal F) : List (Step F) → Option (Portal F)
  | [] => some s
  | a :: rest => (s.step a).bind (fun s => s.run rest)

def Step.Built : Step F → Prop
  | .enqueue d _ | .enqueueMultiple d _ => d.Built
  | .enqueueMultipleDesc items => ∀ item ∈ items, item.1.Built
  | .hardware _ => True

def flip (vb n : Nat) : Nat := if n % 2 = 0 then vb else vb ^^^ qbValidBit

-- The valid bit of entry `at_` of a count that began at `base`: one flip for each multiple of
-- eight in between.
def polarity (vb base at_ : Nat) : Nat := flip vb (at_ / 8 - base / 8)

section Arithmetic

theorem low3 (n : Nat) : n % 16 &&& 7 = n % 8 := by
  rw [show 7 = 2 ^ 3 - 1 from rfl, Nat.and_two_pow_sub_one_eq_mod]
  omega

theorem low4 (n : Nat) : n &&& 0xF = n % 16 := Nat.and_two_pow_sub_one_eq_mod n 4

theorem stepPi (at_ : Nat) : (at_ % 16 + 1) &&& 0xF = (at_ + 1) % 16 := by
  rw [low4]
  omega

theorem cycDiffEq {first last : Nat} (le : first ≤ last) (near : last < first + 16) :
    qmCycDiff qbmanEqcrSize (first % 16) (last % 16) = last - first := by
  unfold qmCycDiff qbmanEqcrSize
  split <;> omega

theorem outstandingEq {taken at_ : Nat} (le : taken ≤ at_) (near : at_ < taken + 16) :
    outstanding (taken % 16) (at_ % 16) = at_ - taken := by
  unfold outstanding
  omega

theorem noOverrun {taken at_ : Nat} (le : taken ≤ at_) (near : at_ < taken + 8) :
    overruns (taken % 16) (at_ % 16) = false := by
  unfold overruns
  rw [outstandingEq le (by omega), List.any_eq_false]
  intro k mem same
  have below := List.mem_range.mp mem
  have same := of_decide_eq_true same
  rw [low3, low3] at same
  omega

theorem flipFlip {vb : Nat} (bit : vb = 0 ∨ vb = qbValidBit) (n : Nat) :
    flip vb n ^^^ qbValidBit = flip vb (n + 1) := by
  unfold flip
  rcases Nat.mod_two_eq_zero_or_one n with even | odd
  · rw [if_pos even, if_neg (by omega)]
  · rw [if_neg (by omega), if_pos (by omega)]
    rcases bit with rfl | rfl <;> decide

theorem polarityBit {vb : Nat} (bit : vb = 0 ∨ vb = qbValidBit) (base at_ : Nat) :
    polarity vb base at_ = 0 ∨ polarity vb base at_ = qbValidBit := by
  unfold polarity flip
  split
  · exact bit
  · rcases bit with rfl | rfl
    · exact .inr (by decide)
    · exact .inl (by decide)

theorem polarityNext {vb : Nat} (bit : vb = 0 ∨ vb = qbValidBit) {base at_ : Nat} (le : base ≤ at_) :
    (if (at_ + 1) % 16 &&& 7 = 0 then polarity vb base at_ ^^^ qbValidBit
      else polarity vb base at_) = polarity vb base (at_ + 1) := by
  rw [low3]
  unfold polarity
  split
  · rw [flipFlip bit]
    congr 1
    omega
  · congr 1
    omega

theorem validBitOr {word vb : Nat} (off : word.testBit 7 = false) (bit : vb = 0 ∨ vb = qbValidBit) :
    (word ||| vb) &&& qbValidBit = vb := by
  have low : word &&& qbValidBit = 0 := by
    unfold qbValidBit
    rw [show 0x80 = 2 ^ 7 from rfl, Nat.and_two_pow, off]
    rfl
  rw [Nat.and_or_distrib_right, low, Nat.zero_or]
  rcases bit with rfl | rfl <;> decide

end Arithmetic

section Loops

variable {taken at_ : Nat} {batch : List (EqDesc × F)} {ring : Nat → Entry F}

theorem slotsEq {α : Type} (rest : List α) (at_ : Nat) :
    slotsFrom rest (at_ % 16) = (List.range rest.length).map (fun j => (at_ + j) % 8) := by
  induction rest generalizing at_ with
  | nil => rfl
  | cons x rest ih =>
    rw [slotsFrom, stepPi, ih, low3, List.length_cons, List.range_succ_eq_map, List.map_cons,
      List.map_map, Nat.add_zero]
    congr 1
    apply List.map_congr_left
    intro j _
    simp only [Function.comp, Nat.succ_eq_add_one]
    congr 1
    omega

theorem flushEq {α : Type} (rest : List α) (at_ : Nat) :
    flushLoop rest (at_ % 16) = (at_ + rest.length) % 16 := by
  induction rest generalizing at_ with
  | nil => rfl
  | cons x rest ih =>
    rw [flushLoop, stepPi, ih, List.length_cons]
    congr 1
    omega

theorem fillLoopDone (le : taken ≤ at_) (fits : at_ + batch.length ≤ taken + 8) :
    ∃ ring', fillLoop (taken % 16) batch (at_ % 16) ring = some ring' := by
  induction batch generalizing at_ ring with
  | nil => exact ⟨ring, rfl⟩
  | cons item rest ih =>
    obtain ⟨d, frame⟩ := item
    rw [List.length_cons] at fits
    unfold fillLoop fill
    rw [noOverrun le (by omega), stepPi]
    exact ih (by omega) (by omega)

theorem verbLoopDone {vb base : Nat} (bit : vb = 0 ∨ vb = qbValidBit) (begun : base ≤ at_)
    (le : taken ≤ at_) (fits : at_ + batch.length ≤ taken + 8)
    (built : ∀ item ∈ batch, item.1.Built) :
    ∃ ring', verbLoop (taken % 16) batch (at_ % 16) (polarity vb base at_) ring =
        some (polarity vb base (at_ + batch.length), ring') ∧
      (∀ j, j < batch.length →
        (ring' ((at_ + j) % 8)).validBit = polarity vb base (at_ + j)) ∧
      ∀ slot, (∀ j, j < batch.length → slot ≠ (at_ + j) % 8) → ring' slot = ring slot := by
  induction batch generalizing at_ ring with
  | nil => exact ⟨ring, rfl, fun j none => absurd none (Nat.not_lt_zero j), fun _ _ => rfl⟩
  | cons item rest ih =>
    obtain ⟨d, frame⟩ := item
    rw [List.length_cons] at fits
    unfold verbLoop setVerb
    rw [noOverrun le (by omega), stepPi, low3]
    obtain ⟨ring', done, bits, frame⟩ := @ih (at_ + 1) (Function.update ring (at_ % 8)
      { ring (at_ % 8) with word0 := d.word0 ||| polarity vb base at_ }) (by omega) (by omega)
      (by omega) (fun item mem => built item (List.mem_cons_of_mem _ mem))
    refine ⟨ring', ?_, ?_, ?_⟩
    · have advanced := polarityNext bit begun
      simp only [Bool.false_eq_true, if_false, Option.bind_eq_bind, Option.bind_some]
      rw [advanced, done, List.length_cons]
      congr 3
      omega
    · intro j below
      rw [List.length_cons] at below
      cases j with
      | zero =>
        have apart : ∀ j, j < rest.length → (at_ + 0) % 8 ≠ (at_ + 1 + j) % 8 := by
          intro j below
          omega
        rw [frame _ apart, Nat.add_zero, Function.update_self]
        exact validBitOr (builtWord (built _ List.mem_cons_self)) (polarityBit bit base at_)
      | succ j =>
        have later := bits j (by omega)
        rwa [Nat.add_right_comm] at later
    · intro slot away
      rw [frame slot]
      · rw [Function.update_of_ne]
        have := away 0 (by rw [List.length_cons]; omega)
        rwa [Nat.add_zero] at this
      · intro j below
        have := away (j + 1) (by rw [List.length_cons]; omega)
        rwa [Nat.add_assoc, Nat.add_comm 1 j]

end Loops

-- `base` and `vb` are the index and the valid bit at the start. The hardware's index and the
-- copy of it are counts that have passed `taken` and `seen` entries.
structure Ok (base vb : Nat) (s : Portal F) (seen taken : Nat) : Prop where
  pi : s.eqcr.pi = (base + s.written.length) % 16
  ci : s.eqcr.ci = seen % 16
  hwCi : s.hwCi = taken % 16
  behind : seen ≤ taken
  within : taken ≤ base + s.written.length
  fits : base + s.written.length ≤ seen + 8
  available : s.eqcr.available = 8 - ((base + s.written.length : Nat) - seen : Int)
  piVb : s.eqcr.piVb = polarity vb base (base + s.written.length)
  bits : ∀ j, (lt : j < s.written.length) → s.written[j] = polarity vb base (base + j)

section Steps

variable {base vb seen taken : Nat} {s : Portal F}

theorem refreshCases (ok : Ok base vb s seen taken) :
    (refresh s.hwCi s.eqcr = none ∧ taken = seen) ∨
    ∃ q seen', refresh s.hwCi s.eqcr = some q ∧ Ok base vb { s with eqcr := q } seen' taken ∧
      base + s.written.length < seen' + 8 := by
  have behind := ok.behind
  have within := ok.within
  have fits := ok.fits
  have available := ok.available
  unfold refresh
  split
  · rename_i full
    rw [ok.ci, ok.hwCi, cycDiffEq behind (by omega)]
    dsimp only
    split
    · exact .inl ⟨rfl, by omega⟩
    · refine .inr ⟨_, taken, rfl, ⟨ok.pi, rfl, rfl, le_refl _, within, ?_, ?_, ok.piVb, ok.bits⟩, ?_⟩
      · show base + s.written.length ≤ taken + 8
        omega
      · show s.eqcr.available + ((taken - seen : Nat) : Int) = _
        push_cast at available ⊢
        omega
      · omega
  · refine .inr ⟨s.eqcr, seen, rfl, ok, ?_⟩
    push_cast at available
    omega

theorem blockedOk (ok : Ok base vb s seen taken) (same : taken = seen) :
    Ok base vb { s with eqcr := { s.eqcr with ci := s.hwCi } } seen taken :=
  ⟨ok.pi, ok.hwCi.trans (by rw [same]), ok.hwCi, ok.behind, ok.within, ok.fits, ok.available, ok.piVb,
    ok.bits⟩

theorem batchOk (bit : vb = 0 ∨ vb = qbValidBit) (ok : Ok base vb s seen taken)
    {items : List (EqDesc × F)} (built : ∀ item ∈ items, item.1.Built) :
    ∃ s' n seen', s.enqueueBatch items = some (s', n) ∧ Ok base vb s' seen' taken := by
  unfold Portal.enqueueBatch
  rcases refreshCases ok with ⟨none, same⟩ | ⟨q, seen', some_, ok', room⟩
  · rw [none]
    exact ⟨_, _, seen, rfl, blockedOk ok same⟩
  · rw [some_]
    dsimp only
    generalize size : (if q.available < items.length then q.available.toNat else items.length) = n
    have available : q.available = 8 - ((base + s.written.length : Nat) - seen' : Int) := ok'.available
    have behind := ok'.behind
    have fits : base + s.written.length + n ≤ seen' + 8 ∧ n ≤ items.length := by
      push_cast at available
      split at size <;> omega
    have length : (items.take n).length = n := by
      rw [List.length_take]
      omega
    have pi : q.pi = (base + s.written.length) % 16 := ok'.pi
    have piVb : q.piVb = polarity vb base (base + s.written.length) := ok'.piVb
    have hwCi : s.hwCi = taken % 16 := ok.hwCi
    have within : taken ≤ base + s.written.length := ok.within
    obtain ⟨filled, fill⟩ := @fillLoopDone F taken (base + s.written.length) (items.take n) s.ring
      within (by omega)
    obtain ⟨ring, verbs, bits, _⟩ := @verbLoopDone F taken (base + s.written.length) (items.take n)
      filled vb base bit (by omega) within (by omega)
      (fun item mem => built item (List.mem_of_mem_take mem))
    rw [pi, piVb, hwCi, fill]
    simp only [Option.bind_eq_bind, Option.bind_some]
    rw [verbs]
    simp only [Option.bind_some]
    refine ⟨_, n, seen', rfl, ?_⟩
    have count : (s.written ++ (slotsFrom (items.take n) ((base + s.written.length) % 16)).map
        (fun slot => (ring slot).validBit)).length = s.written.length + n := by
      rw [List.length_append, List.length_map, slotsEq, List.length_map, List.length_range, length]
    refine ⟨?_, ok'.ci, rfl, behind, ?_, ?_, ?_, ?_, ?_⟩
    · dsimp only
      rw [flushEq, count, length, Nat.add_assoc]
    · dsimp only
      rw [count]
      omega
    · dsimp only
      rw [count]
      omega
    · dsimp only
      rw [count]
      push_cast at available ⊢
      omega
    · dsimp only
      rw [count, length, Nat.add_assoc]
    · intro j lt
      dsimp only at lt ⊢
      rw [count] at lt
      rcases Nat.lt_or_ge j s.written.length with old | new
      · rw [List.getElem_append_left old]
        exact ok.bits j old
      · rw [List.getElem_append_right new]
        simp only [slotsEq, List.getElem_map, List.getElem_range]
        rw [bits _ (by omega)]
        congr 1
        omega

theorem ringModeEq (s : Portal F) (d : EqDesc) (frame : F)
    (room : ∀ q, refresh s.hwCi s.eqcr = some q → 1 ≤ q.available) :
    (s.enqueueRingMode d frame).map Prod.fst = (s.enqueueBatch [(d, frame)]).map Prod.fst := by
  unfold Portal.enqueueRingMode Portal.enqueueBatch
  cases start : refresh s.hwCi s.eqcr with
  | none => rfl
  | some q =>
    have one : ¬ q.available < ([(d, frame)] : List (EqDesc × F)).length := by
      have := room q start
      simp only [List.length_singleton]
      omega
    dsimp only
    rw [if_neg one]
    simp only [List.length_singleton, List.take_succ_cons, List.take_zero, fillLoop, verbLoop,
      flushLoop, slotsFrom, Option.bind_eq_bind, List.map_cons, List.map_nil, Nat.cast_one]
    cases fill s.hwCi q.pi d frame s.ring with
    | none => rfl
    | some ring =>
      simp only [Option.bind_some]
      cases setVerb s.hwCi q.pi (d.word0 ||| q.piVb) ring with
      | none => rfl
      | some ring => rfl

theorem stepOk (bit : vb = 0 ∨ vb = qbValidBit) (ok : Ok base vb s seen taken) {a : Step F}
    (built : a.Built) : ∃ s' seen' taken', s.step a = some s' ∧ Ok base vb s' seen' taken' := by
  cases a with
  | enqueue d frame =>
    have room : ∀ q, refresh s.hwCi s.eqcr = some q → 1 ≤ q.available := by
      intro q start
      rcases refreshCases ok with ⟨none, _⟩ | ⟨q', seen', some_, ok', room⟩
      · rw [none] at start
        cases start
      · rw [some_] at start
        cases start
        have available : q.available = 8 - ((base + s.written.length : Nat) - seen' : Int) :=
          ok'.available
        push_cast at available
        omega
    have items : ∀ item ∈ [(d, frame)], item.1.Built := by
      intro item mem
      rw [List.mem_singleton.mp mem]
      exact built
    obtain ⟨s', n, seen', done, ok'⟩ := batchOk bit ok items
    exact ⟨s', seen', taken,
      (ringModeEq s d frame room).trans (congrArg (Option.map Prod.fst) done), ok'⟩
  | enqueueMultiple d frames =>
    have items : ∀ item ∈ frames.map (fun frame => (d, frame)), item.1.Built := by
      intro item mem
      obtain ⟨frame, _, rfl⟩ := List.mem_map.mp mem
      exact built
    obtain ⟨s', n, seen', done, ok'⟩ := batchOk bit ok items
    exact ⟨s', seen', taken, congrArg (Option.map Prod.fst) done, ok'⟩
  | enqueueMultipleDesc items =>
    obtain ⟨s', n, seen', done, ok'⟩ := batchOk bit ok built
    exact ⟨s', seen', taken, congrArg (Option.map Prod.fst) done, ok'⟩
  | hardware n =>
    have behind := ok.behind
    have within := ok.within
    have fits := ok.fits
    refine ⟨_, seen, taken + min n (base + s.written.length - taken), rfl,
      ⟨ok.pi, ok.ci, ?_, by omega, ?_, ok.fits, ok.available, ok.piVb, ok.bits⟩⟩
    · dsimp only
      rw [ok.hwCi, ok.pi, outstandingEq within (by omega), Nat.mod_add_mod]
    · dsimp only
      omega

theorem runOk (bit : vb = 0 ∨ vb = qbValidBit) {steps : List (Step F)}
    (ok : Ok base vb s seen taken) (built : ∀ a ∈ steps, a.Built) :
    ∃ s' seen' taken', s.run steps = some s' ∧ Ok base vb s' seen' taken' := by
  induction steps generalizing s seen taken with
  | nil => exact ⟨s, seen, taken, rfl, ok⟩
  | cons a rest ih =>
    obtain ⟨s', seen', taken', first, ok'⟩ := stepOk bit ok (built a List.mem_cons_self)
    obtain ⟨s'', seen'', taken'', later, ok''⟩ :=
      ih ok' (fun b mem => built b (List.mem_cons_of_mem _ mem))
    refine ⟨s'', seen'', taken'', ?_, ok''⟩
    unfold Portal.run
    rw [first]
    exact later

end Steps

theorem initOk (eqcrPi eqcrCi : Nat) (ring : Nat → Entry F)
    (few : outstanding (eqcrCi &&& 0xF) (eqcrPi &&& 0xF) ≤ 8) :
    ∃ seen, Ok ((eqcrPi &&& 0xF) + 16) (eqcrPi &&& qbValidBit) (Portal.init eqcrPi eqcrCi ring)
      seen seen := by
  rw [low4, low4] at few
  unfold outstanding at few
  refine ⟨(eqcrPi &&& 0xF) + 16 - (eqcrPi % 16 + 16 - eqcrCi % 16) % 16, ?_⟩
  rw [low4]
  refine ⟨?_, ?_, ?_, le_refl _, ?_, ?_, ?_, ?_, ?_⟩
  · simp [Portal.init, low4]
  · simp only [Portal.init, low4]
    omega
  · simp only [Portal.init, low4]
    omega
  · simp only [Portal.init, List.length_nil]
    omega
  · simp only [Portal.init, List.length_nil]
    omega
  · simp only [Portal.init, low4, List.length_nil, qmCycDiff, qbmanEqcrSize]
    split <;> omega
  · simp [Portal.init, polarity, flip]
  · intro j lt
    exact absurd lt (Nat.not_lt_zero j)

theorem ringNeverOverruns (eqcrPi eqcrCi : Nat) (ring : Nat → Entry F)
    (few : outstanding (eqcrCi &&& 0xF) (eqcrPi &&& 0xF) ≤ 8) (steps : List (Step F))
    (built : ∀ a ∈ steps, a.Built) :
    ∃ s, (Portal.init eqcrPi eqcrCi ring).run steps = some s ∧
      0 ≤ s.eqcr.available ∧ s.eqcr.available ≤ 8 ∧
      s.eqcr.available + ((s.eqcr.pi + 16 - s.eqcr.ci) % 16 : Nat) = 8 ∧
      ∀ j, (lt : j < s.written.length) → s.written[j] =
        polarity (eqcrPi &&& qbValidBit) (eqcrPi &&& 0xF) ((eqcrPi &&& 0xF) + j) := by
  have bit : eqcrPi &&& qbValidBit = 0 ∨ eqcrPi &&& qbValidBit = qbValidBit := by
    unfold qbValidBit
    rw [show 0x80 = 2 ^ 7 from rfl, Nat.and_two_pow]
    cases eqcrPi.testBit 7 <;> simp
  obtain ⟨start, ok⟩ := initOk eqcrPi eqcrCi ring few
  obtain ⟨s, seen, taken, ran, ok⟩ := runOk bit ok built
  have behind := ok.behind
  have within := ok.within
  have fits := ok.fits
  have available := ok.available
  push_cast at available
  refine ⟨s, ran, by omega, by omega, ?_, ?_⟩
  · rw [ok.pi, ok.ci]
    omega
  · intro j lt
    rw [ok.bits j lt]
    unfold polarity
    congr 1
    omega

theorem ringNeverOverrunsFull :
    outstanding (0x02 &&& 0xF) (0x8A &&& 0xF) ≤ 8 ∧
    ∃ s, (Portal.init 0x8A 0x02 (fun _ => ⟨0, [], ()⟩)).run
      [.enqueue EqDesc.clear (), .hardware 3, .enqueueMultiple (EqDesc.clear.setFq 7) [(), (), (), ()]] =
        some s ∧ s.eqcr.available + ((s.eqcr.pi + 16 - s.eqcr.ci) % 16 : Nat) = 8 := by
  refine ⟨by decide, ?_⟩
  have built : ∀ a ∈ [Step.enqueue EqDesc.clear (), .hardware 3,
      .enqueueMultiple (EqDesc.clear.setFq 7) [(), (), (), ()]], a.Built := by
    intro a mem
    simp only [List.mem_cons, List.not_mem_nil, or_false] at mem
    rcases mem with rfl | rfl | rfl
    · exact .clear
    · trivial
    · exact .setFq 7 .clear
  obtain ⟨s, ran, _, _, sum, _⟩ := ringNeverOverruns 0x8A 0x02 (fun _ => ⟨0, [], ()⟩) (by decide)
    _ built
  exact ⟨s, ran, sum⟩

end Flexbuild.Qbman
