import Flexbuild.QbmanEnqueue

/-! Enqueueing a batch. The bodies, the verbs and the flushes of a batch go over the ring in three
passes, and an entry that is enqueued by itself gets its body and its verb at once. Here the ring is
what the writes leave in memory, whatever index the hardware reports. -/
namespace Flexbuild.Qbman

variable {F : Type}

structure Swp (F : Type) where
  eqcr : Eqcr
  ring : Nat → Entry F

def body (ring : Nat → Entry F) (pi : Nat) (d : EqDesc) (fd : F) : Nat → Entry F :=
  Function.update ring (pi &&& 7) { ring (pi &&& 7) with words := d.tail, frame := fd }

def verb (ring : Nat → Entry F) (pi word : Nat) : Nat → Entry F :=
  Function.update ring (pi &&& 7) { ring (pi &&& 7) with word0 := word }

-- `reg` is the register that `qbman_cena_read_reg` reads; the call returns 0 or -EBUSY.
def enqueueRingMode (reg : Nat) (s : Swp F) (d : EqDesc) (fd : F) : Swp F × Bool :=
  let eqcrCi := reg &&& 0xF
  match refresh eqcrCi s.eqcr with
  | none => ({ s with eqcr := { s.eqcr with ci := eqcrCi } }, false)
  | some q =>
    let ring := verb (body s.ring q.pi d fd) q.pi (d.word0 ||| q.piVb)
    let pi := (q.pi + 1) &&& 0xF
    let piVb := if pi &&& 7 = 0 then q.piVb ^^^ qbValidBit else q.piVb
    (⟨{ q with pi := pi, available := q.available - 1, piVb := piVb }, ring⟩, true)

def indexAfter (pi : Nat) : Nat → Nat
  | 0 => pi
  | i + 1 => (indexAfter pi i + 1) &&& 0xF

def vbAfter (pi piVb : Nat) : Nat → Nat
  | 0 => piVb
  | i + 1 => if indexAfter pi (i + 1) &&& 7 = 0 then vbAfter pi piVb i ^^^ qbValidBit else vbAfter pi piVb i

def fillPass (pi : Nat) (d : Nat → EqDesc) (fd : Nat → F) (ring : Nat → Entry F) : Nat → Nat → Entry F
  | 0 => ring
  | i + 1 => body (fillPass pi d fd ring i) (indexAfter pi i) (d i) (fd i)

def verbPass (pi piVb : Nat) (d : Nat → EqDesc) (ring : Nat → Entry F) : Nat → Nat → Entry F
  | 0 => ring
  | i + 1 => verb (verbPass pi piVb d ring i) (indexAfter pi i) ((d i).word0 ||| vbAfter pi piVb i)

def enqueueMultipleDesc (reg : Nat) (s : Swp F) (d : Nat → EqDesc) (fd : Nat → F) (numFrames : Int) : Swp F × Int :=
  let eqcrCi := reg &&& 0xF
  match refresh eqcrCi s.eqcr with
  | none => ({ s with eqcr := { s.eqcr with ci := eqcrCi } }, 0)
  | some q =>
    let numEnqueued := if q.available < numFrames then q.available else numFrames
    -- A loop up to a negative number makes no turn.
    let turns := numEnqueued.toNat
    let ring := verbPass q.pi q.piVb d (fillPass q.pi d fd s.ring turns) turns
    -- The pass that flushes leaves the index behind the last entry.
    (⟨{ q with pi := indexAfter q.pi turns, available := q.available - numEnqueued, piVb := vbAfter q.pi q.piVb turns },
      ring⟩, numEnqueued)

def enqueueMultiple (reg : Nat) (s : Swp F) (d : EqDesc) (fd : Nat → F) (numFrames : Int) : Swp F × Int :=
  enqueueMultipleDesc reg s (fun _ => d) fd numFrames

def enqueueSingles (reg : Nat) (s : Swp F) (d : Nat → EqDesc) (fd : Nat → F) : Nat → Option (Swp F)
  | 0 => some s
  | k + 1 => (enqueueSingles reg s d fd k).bind fun s =>
      match enqueueRingMode reg s (d k) (fd k) with
      | (s, true) => some s
      | (_, false) => none

variable {reg pi piVb : Nat} {s : Swp F} {ring : Nat → Entry F} {d : Nat → EqDesc} {fd : Nat → F}

theorem bodyVerb (a b word : Nat) (desc : EqDesc) (frame : F) :
    verb (body ring a desc frame) b word = body (verb ring b word) a desc frame := by
  funext slot
  unfold verb body
  by_cases same : a &&& 7 = b &&& 7
  · rw [same]
    simp only [Function.update_idem, Function.update_self]
  · by_cases first : slot = a &&& 7
    · subst first
      simp only [Function.update_self, Function.update_of_ne same]
    · by_cases second : slot = b &&& 7
      · subst second
        simp only [Function.update_self, Function.update_of_ne first]
      · simp only [Function.update_of_ne first, Function.update_of_ne second]

theorem verbPassBody (a : Nat) (desc : EqDesc) (frame : F) (n : Nat) :
    verbPass pi piVb d (body ring a desc frame) n = body (verbPass pi piVb d ring n) a desc frame := by
  induction n with
  | zero => rfl
  | succ n ih => rw [verbPass, verbPass, ih, bodyVerb]

theorem passesTogether (n : Nat) : verbPass pi piVb d (fillPass pi d fd ring (n + 1)) (n + 1) =
    verb (body (verbPass pi piVb d (fillPass pi d fd ring n) n) (indexAfter pi n) (d n) (fd n)) (indexAfter pi n)
      ((d n).word0 ||| vbAfter pi piVb n) := by
  rw [verbPass, fillPass, verbPassBody]

def batchAfter (q : Eqcr) (d : Nat → EqDesc) (fd : Nat → F) (ring : Nat → Entry F) (n : Nat) : Swp F :=
  ⟨{ q with pi := indexAfter q.pi n, available := q.available - n, piVb := vbAfter q.pi q.piVb n },
    verbPass q.pi q.piVb d (fillPass q.pi d fd ring n) n⟩

variable {hwCi : Nat}

theorem refreshSome {q : Eqcr} (left : q.available ≠ 0) : refresh hwCi q = some q := if_neg left

theorem singleAfter {q : Eqcr} (n : Nat) (left : (n : Int) < q.available) :
    enqueueRingMode reg (batchAfter q d fd ring n) (d n) (fd n) = (batchAfter q d fd ring (n + 1), true) := by
  have some : (batchAfter q d fd ring n).eqcr.available ≠ 0 := by
    change q.available - n ≠ 0
    omega
  rw [enqueueRingMode, refreshSome some]
  unfold batchAfter
  rw [passesTogether]
  dsimp only
  rw [indexAfter, vbAfter, Int.natCast_add, Int.natCast_one, Int.sub_sub, indexAfter]

theorem singlesAfter {q : Eqcr} (n : Nat) (left : (n : Int) ≤ q.available) (started : refresh (reg &&& 0xF) s.eqcr = some q) :
    enqueueSingles reg s d fd n = if n = 0 then some s else some (batchAfter q d fd s.ring n) := by
  induction n with
  | zero => rfl
  | succ n ih =>
    have single : enqueueRingMode reg (batchAfter q d fd s.ring n) (d n) (fd n) = (batchAfter q d fd s.ring (n + 1), true) :=
      singleAfter n (by omega)
    rw [enqueueSingles, ih (by omega), if_neg (Nat.succ_ne_zero n)]
    by_cases first : n = 0
    · subst first
      have same : enqueueRingMode reg s (d 0) (fd 0) = enqueueRingMode reg (batchAfter q d fd s.ring 0) (d 0) (fd 0) := by
        have room : (batchAfter q d fd s.ring 0).eqcr.available ≠ 0 := by
          change q.available - (0 : Nat) ≠ 0
          omega
        rw [enqueueRingMode, started, enqueueRingMode, refreshSome room]
        simp only [batchAfter, indexAfter, vbAfter, verbPass, fillPass, Int.natCast_zero, Int.sub_zero]
      rw [if_pos rfl]
      simp only [Option.bind_some, same, single]
    · rw [if_neg first]
      simp only [Option.bind_some, single]

theorem refusedSame {q : Eqcr} (hwIn : hwCi < 16) (ciIn : q.ci < 16) (none : refresh hwCi q = .none) :
    q.ci = hwCi := by
  unfold refresh at none
  split at none
  · dsimp only at none
    split at none
    · next zero =>
      unfold qmCycDiff qbmanEqcrSize at zero
      split at zero <;> omega
    · cases none
  · cases none

theorem lowIndex (reg : Nat) : reg &&& 0xF < 16 := by
  rw [low4]
  exact Nat.mod_lt _ (by decide)

theorem refreshPositive {q r : Eqcr} (least : 0 ≤ q.available) (started : refresh hwCi q = some r) : 0 < r.available := by
  unfold refresh at started
  split at started
  · dsimp only at started
    split at started
    · cases started
    · cases started
      dsimp only
      omega
  · cases started
    omega

theorem refreshKeeps {q r : Eqcr} (started : refresh hwCi q = some r) : r.pi = q.pi ∧ r.piVb = q.piVb := by
  unfold refresh at started
  split at started
  · dsimp only at started
    split at started
    · cases started
    · cases started
      exact ⟨rfl, rfl⟩
  · cases started
    exact ⟨rfl, rfl⟩

structure Regular (q : Eqcr) : Prop where
  piInside : q.pi < 16
  ciInside : q.ci < 16
  least : 0 ≤ q.available
  slots : q.available + ((q.pi + 16 - q.ci) % 16 : Nat) = 8

structure AsSingles (reg : Nat) (s : Swp F) (d : Nat → EqDesc) (fd : Nat → F) (numFrames : Int) (result : Swp F × Int)
    (k : Nat) : Prop where
  returned : result.2 = k
  most : k ≤ numFrames
  busy : k = 0 → 0 < numFrames → (enqueueRingMode reg s (d 0) (fd 0)).2 = false
  singles : numFrames ≠ 0 ∨ s.eqcr.available ≠ 0 → enqueueSingles reg s d fd k = some result.1
  nothing : numFrames = 0 → result.1.ring = s.ring ∧ result.1.eqcr.pi = s.eqcr.pi ∧ result.1.eqcr.piVb = s.eqcr.piVb

theorem batchDescSingles (reg : Nat) (s : Swp F) (d : Nat → EqDesc) (fd : Nat → F) (numFrames : Int) (frames : 0 ≤ numFrames)
    (regular : Regular s.eqcr) : ∃ k, AsSingles reg s d fd numFrames (enqueueMultipleDesc reg s d fd numFrames) k := by
  cases started : refresh (reg &&& 0xF) s.eqcr with
  | none =>
    have result : enqueueMultipleDesc reg s d fd numFrames = (s, 0) := by
      rw [enqueueMultipleDesc, started, ← refusedSame (lowIndex reg) regular.ciInside started]
    rw [result]
    refine ⟨0, rfl, frames, fun _ _ => ?_, fun _ => rfl, fun _ => ⟨rfl, rfl, rfl⟩⟩
    rw [enqueueRingMode, started]
  | some q =>
    have positive := refreshPositive regular.least started
    obtain ⟨k, same⟩ : ∃ k : Nat, (if q.available < numFrames then q.available else numFrames) = k :=
      ⟨_, (Int.toNat_of_nonneg (by split <;> omega)).symm⟩
    have result : enqueueMultipleDesc reg s d fd numFrames = (batchAfter q d fd s.ring k, (k : Int)) := by
      rw [enqueueMultipleDesc, started]
      dsimp only
      rw [same, Int.toNat_natCast]
      rfl
    have inside : (k : Int) ≤ q.available ∧ (k : Int) ≤ numFrames ∧ (k = 0 → numFrames = 0) := by
      split at same <;> omega
    rw [result]
    refine ⟨k, rfl, inside.2.1, fun none some => absurd (inside.2.2 none) (by omega), fun more => ?_, fun none => ?_⟩
    · rw [singlesAfter k inside.1 started]
      split
      · next zero =>
        subst zero
        have left : s.eqcr.available ≠ 0 := more.resolve_left (not_not_intro (inside.2.2 rfl))
        cases (refreshSome left).symm.trans started
        simp only [batchAfter, indexAfter, vbAfter, verbPass, fillPass, Int.natCast_zero, Int.sub_zero]
      · rfl
    · obtain rfl : k = 0 := by omega
      have kept := refreshKeeps started
      exact ⟨rfl, kept.1, kept.2⟩

theorem batchesSingles (reg : Nat) (s : Swp F) (d : Nat → EqDesc) (desc : EqDesc) (fd : Nat → F) (numFrames : Int)
    (frames : 0 ≤ numFrames) (regular : Regular s.eqcr) :
    (∃ k, AsSingles reg s d fd numFrames (enqueueMultipleDesc reg s d fd numFrames) k) ∧
    ∃ k, AsSingles reg s (fun _ => desc) fd numFrames (enqueueMultiple reg s desc fd numFrames) k :=
  ⟨batchDescSingles reg s d fd numFrames frames regular, batchDescSingles reg s (fun _ => desc) fd numFrames frames regular⟩

def portalWith (pi ci : Nat) (available : Int) : Swp Nat := ⟨⟨pi, qbValidBit, ci, available⟩, fun _ => ⟨0, [], 0⟩⟩

theorem batchesSinglesExample : ∃ k, AsSingles 3 (portalWith 8 0 0) (fun _ => .clear) id 5
    (enqueueMultiple 3 (portalWith 8 0 0) .clear id 5) k :=
  (batchesSingles 3 (portalWith 8 0 0) (fun _ => .clear) .clear id 5 (by decide) ⟨by decide, by decide, by decide, by decide⟩).2

theorem batchReadsIndex : Regular (portalWith 8 0 0).eqcr ∧ (enqueueMultiple 3 (portalWith 8 0 0) .clear id 0).2 = 0 ∧
    enqueueSingles 3 (portalWith 8 0 0) (fun _ => .clear) id 0 ≠ some (enqueueMultiple 3 (portalWith 8 0 0) .clear id 0).1 ∧
    (portalWith 12 0 (-4)).eqcr.available + ((12 + 16 - 0) % 16 : Nat) = 8 ∧
    (enqueueMultiple 0 (portalWith 12 0 (-4)) .clear id 1).2 = -4 := by
  refine ⟨⟨by decide, by decide, by decide, by decide⟩, rfl, fun same => ?_, rfl, rfl⟩
  have read : (portalWith 8 0 0).eqcr.available = 3 := congrArg (fun s : Swp Nat => s.eqcr.available) (Option.some.inj same)
  exact absurd read (by decide)

end Flexbuild.Qbman
