import Mathlib.Data.BitVec
import Mathlib.Tactic.Common

/-! Records of words with setters and getters of bit fields. Fields whose setters touch nothing that the others
look at or clear are independent: after any calls each getter gives what its own setter got last. -/
namespace Flexbuild.Accessors

variable {k : Nat}

abbrev Record (k : Nat) := Nat → BitVec k

abbrev Masks (k : Nat) := List (Nat × BitVec k)

def maskAt (m : Masks k) (w : Nat) : BitVec k := m.foldr (fun p rest => if p.1 = w then p.2 ||| rest else rest) 0

def Apart (m n : Masks k) : Prop := ∀ p ∈ m, ∀ q ∈ n, p.1 = q.1 → p.2 &&& q.2 = 0
instance (m n : Masks k) : Decidable (Apart m n) := by unfold Apart; infer_instance

def Agree (m : Masks k) (r r' : Record k) : Prop := ∀ w, r w &&& maskAt m w = r' w &&& maskAt m w

theorem maskAtCons (p : Nat × BitVec k) (m : Masks k) (w : Nat) :
    maskAt (p :: m) w = if p.1 = w then p.2 ||| maskAt m w else maskAt m w := rfl

theorem apartAt {m n : Masks k} (apart : Apart m n) (w : Nat) : maskAt m w &&& maskAt n w = 0 := by
  have single : ∀ p : Nat × BitVec k, p.1 = w → (∀ q ∈ n, p.1 = q.1 → p.2 &&& q.2 = 0) → p.2 &&& maskAt n w = 0 := by
    intro p isWord away
    clear apart
    induction n with
    | nil => exact BitVec.and_zero
    | cons q rest later =>
      have awayRest := later fun q' among => away q' (List.mem_cons_of_mem q among)
      rw [maskAtCons]
      split
      · next same =>
        rw [BitVec.and_or_distrib_left, away q List.mem_cons_self (isWord.trans same.symm), awayRest]
        exact BitVec.or_zero
      · exact awayRest
  induction m with
  | nil => exact BitVec.zero_and
  | cons p rest later =>
    have fromRest := later fun p' among => apart p' (List.mem_cons_of_mem p among)
    rw [maskAtCons]
    split
    · next isWord =>
      rw [BitVec.and_or_distrib_right, single p isWord (apart p List.mem_cons_self), fromRest]
      exact BitVec.or_zero
    · exact fromRest

structure Accessor (k : Nat) where
  Arg : Type
  Val : Type
  set : Arg → Record k → Record k
  get : Record k → Val
  norm : Record k → Arg → Val
  Ok : Arg → Prop
  clears : Masks k
  puts : Masks k
  sees : Masks k
  depends : Masks k
  put : Arg → Nat → BitVec k
  acts : ∀ a r w, Ok a → set a r w = (r w &&& ~~~ maskAt clears w) ||| put a w
  within : ∀ a w, Ok a → put a w &&& ~~~ maskAt puts w = 0
  reads : ∀ r r', Agree sees r r' → get r = get r'
  steady : ∀ r r' a, Agree depends r r' → norm r a = norm r' a
  own : ∀ a r, Ok a → get (set a r) = norm r a

variable {ι : Type} (f : ι → Accessor k)

structure Independent : Prop where
  sees : ∀ i j, i ≠ j → Apart (f i).sees (f j).clears ∧ Apart (f i).sees (f j).puts
  clears : ∀ i j, i ≠ j → Apart (f i).clears (f j).clears ∧ Apart (f i).clears (f j).puts
  depends : ∀ i j, Apart (f i).depends (f j).clears ∧ Apart (f i).depends (f j).puts

abbrev Call := Σ i, (f i).Arg

def run (calls : List (Call f)) (r : Record k) : Record k := calls.foldl (fun r c => (f c.1).set c.2 r) r

def lastArg [DecidableEq ι] (i : ι) : List (Call f) → Option (f i).Arg
  | [] => none
  | ⟨j, a⟩ :: rest => (lastArg i rest).or (if same : j = i then some (same ▸ a) else none)

def expected [DecidableEq ι] (i : ι) (r : Record k) (calls : List (Call f)) : (f i).Val :=
  match lastArg f i calls with
  | some a => (f i).norm r a
  | none => (f i).get r

variable {f}

theorem bitZero {x : BitVec k} (zero : x = 0) (b : Nat) : x.getLsbD b = false := by
  rw [zero]
  exact BitVec.getLsbD_zero

theorem seenBit : ∀ r seen clear put may : Bool, (seen && clear) = false → (seen && may) = false → (put && !may) = false →
    (((r && !clear) || put) && seen) = (r && seen) := by decide

theorem commuteBit : ∀ r a b clearA clearB mayA mayB : Bool, (clearA && mayB) = false → (clearB && mayA) = false →
    (a && !mayA) = false → (b && !mayB) = false →
    (((((r && !clearB) || b) && !clearA) || a)) = (((((r && !clearA) || a) && !clearB) || b)) := by decide

theorem setAgree {m : Masks k} {j : ι} {a : (f j).Arg} (ok : (f j).Ok a) (clears : Apart m (f j).clears)
    (puts : Apart m (f j).puts) (r : Record k) : Agree m ((f j).set a r) r := by
  intro w
  have cleared := apartAt clears w
  have putAway := apartAt puts w
  have within := (f j).within a w ok
  rw [(f j).acts a r w ok]
  apply BitVec.eq_of_getLsbD_eq
  intro b small
  have clearedBit := bitZero cleared b
  have putBit := bitZero putAway b
  have withinBit := bitZero within b
  simp only [BitVec.getLsbD_and, BitVec.getLsbD_or, BitVec.getLsbD_not, small, decide_true, Bool.true_and] at clearedBit putBit withinBit ⊢
  exact seenBit _ _ _ _ _ clearedBit putBit withinBit

theorem otherGet (independent : Independent f) {i j : ι} (different : i ≠ j) {a : (f j).Arg} (ok : (f j).Ok a)
    (r : Record k) : (f i).get ((f j).set a r) = (f i).get r :=
  (f i).reads _ _ (setAgree ok (independent.sees i j different).1 (independent.sees i j different).2 r)

theorem normSet (independent : Independent f) (i : ι) {j : ι} {b : (f j).Arg} (ok : (f j).Ok b) (r : Record k)
    (a : (f i).Arg) : (f i).norm ((f j).set b r) a = (f i).norm r a :=
  (f i).steady _ _ a (setAgree ok (independent.depends i j).1 (independent.depends i j).2 r)

theorem runGets [DecidableEq ι] (independent : Independent f) (i : ι) (calls : List (Call f)) : ∀ r : Record k,
    (∀ c ∈ calls, (f c.1).Ok c.2) → (f i).get (run f calls r) = expected f i r calls := by
  induction calls with
  | nil => exact fun _ _ => rfl
  | cons c rest later =>
    intro r ok
    obtain ⟨j, a⟩ := c
    have here : (f j).Ok a := ok ⟨j, a⟩ List.mem_cons_self
    have rest' := later ((f j).set a r) fun c among => ok c (List.mem_cons_of_mem _ among)
    change (f i).get (run f rest ((f j).set a r)) = _
    rw [rest', expected, expected, lastArg]
    cases lastArg f i rest with
    | some b => exact normSet independent i here r b
    | none =>
      rw [Option.none_or]
      by_cases same : j = i
      · subst same
        rw [dif_pos rfl]
        exact (f j).own a r here
      · rw [dif_neg same]
        exact otherGet independent (Ne.symm same) here r

theorem setCommute (independent : Independent f) {i j : ι} (different : i ≠ j) {a : (f i).Arg} {b : (f j).Arg}
    (okA : (f i).Ok a) (okB : (f j).Ok b) (r : Record k) :
    (f i).set a ((f j).set b r) = (f j).set b ((f i).set a r) := by
  funext w
  rw [(f i).acts a _ w okA, (f j).acts b _ w okB, (f j).acts b _ w okB, (f i).acts a _ w okA]
  have clears := apartAt (independent.clears i j different).2 w
  have clears' := apartAt (independent.clears j i (Ne.symm different)).2 w
  have withinA := (f i).within a w okA
  have withinB := (f j).within b w okB
  apply BitVec.eq_of_getLsbD_eq
  intro p small
  have clearsBit := bitZero clears p
  have clearsBit' := bitZero clears' p
  have bitA := bitZero withinA p
  have bitB := bitZero withinB p
  simp only [BitVec.getLsbD_and, BitVec.getLsbD_or, BitVec.getLsbD_not, small, decide_true, Bool.true_and] at clearsBit clearsBit' bitA bitB ⊢
  exact commuteBit _ _ _ _ _ _ _ clearsBit clearsBit' bitA bitB

def RightCall (f : ι → Accessor k) (i : ι) (a : (f i).Arg) : Prop :=
  ∀ r, (f i).get ((f i).set a r) = (f i).norm r a ∧ ∀ j, j ≠ i → (f j).get ((f i).set a r) = (f j).get r

theorem okRight (independent : Independent f) {i : ι} {a : (f i).Arg} (ok : (f i).Ok a) : RightCall f i a :=
  fun r => ⟨(f i).own a r ok, fun _ different => otherGet independent different ok r⟩

end Flexbuild.Accessors
