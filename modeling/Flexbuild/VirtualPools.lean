import Flexbuild.Ledgers

/-! Virtual pools: each commits a share of a hardware buffer pool and may draw beyond it, up to
its maximum, on what remains. A pool slot is free while `max_bufs` is zero, a hardware pool slot
is empty while `remaining` is -1. -/
namespace Flexbuild.VirtualPools
open Ledgers

structure VirtualPoolDesc where
  maxBufs : Int
  committedBufs : Int
  allocatedBufs : Int
  bmanArrayIndex : Nat
  deriving DecidableEq, Repr

structure BmanPoolDesc where
  remaining : Int
  bmanPoolId : Nat
  deriving DecidableEq, Repr

def maxVirtualBmanPoolsNum : Nat := 64

inductive Status where
  | success | idAllocFail | illegalArgs | bufAllocFail | cdmaErr
  | releasePoolFailed | insufficientBuffers
  deriving DecidableEq, Repr

structure State where
  virtualBmanPools : Nat → BmanPoolDesc
  virtualPool : Nat → VirtualPoolDesc
  numOfVirtualPools : Nat
  -- Not in the code: the total of each hardware pool, and the buffers held from each virtual pool.
  total : Nat → Option Int
  held : Nat → Nat

def State.boot : State :=
  ⟨fun _ => ⟨0, 0⟩, fun _ => ⟨0, 0, 0, 0⟩, 0, fun _ => none, fun _ => 0⟩

def State.setRemaining (s : State) (i : Nat) (n : Int) : State :=
  { s with
    virtualBmanPools :=
      Function.update s.virtualBmanPools i ⟨n, (s.virtualBmanPools i).bmanPoolId⟩ }

def State.setPool (s : State) (id : Nat) (p : VirtualPoolDesc) : State :=
  { s with virtualPool := Function.update s.virtualPool id p }

def State.setHeld (s : State) (id n : Nat) : State :=
  { s with held := Function.update s.held id n }

def State.bmanArrayIndex (s : State) (bmanPoolId : Nat) : Nat :=
  ((List.range maxVirtualBmanPoolsNum).find?
    (fun i => decide ((s.virtualBmanPools i).bmanPoolId = bmanPoolId))).getD 0

def State.freeId (s : State) : Option Nat :=
  (List.range s.numOfVirtualPools).find? (fun id => decide ((s.virtualPool id).maxBufs = 0))

-- `slDebug` is a build with SL_DEBUG.
def vpoolCreatePool (slDebug : Bool) (s : State) (bmanPoolId : Nat)
    (maxBufs committedBufs : Int) : Status × State :=
  if slDebug ∧ (maxVirtualBmanPoolsNum ≤ bmanPoolId ∨ maxBufs < committedBufs ∨
      committedBufs = 0 ∨ maxBufs = 0) then (.illegalArgs, s)
  else
    let index := s.bmanArrayIndex bmanPoolId
    let remaining := (s.virtualBmanPools index).remaining
    if committedBufs ≤ remaining then
      let s := s.setRemaining index (remaining - committedBufs)
      match s.freeId with
      | none => (.idAllocFail, s)
      | some id =>
          (.success, (s.setPool id ⟨maxBufs, committedBufs, 0, index⟩).setHeld id 0)
    else (.insufficientBuffers, s)

def vpoolReleasePool (s : State) (id : Nat) : Status × State :=
  let p := s.virtualPool id
  if p.allocatedBufs ≠ 0 then (.releasePoolFailed, s)
  else
    (.success, (s.setPool id { p with maxBufs := 0 }).setRemaining p.bmanArrayIndex
      ((s.virtualBmanPools p.bmanArrayIndex).remaining + p.committedBufs))

-- `memory` is what the pool array holds; only `max_bufs` is cleared.
def vpoolInit (s : State) (memory : Nat → VirtualPoolDesc) (numOfVirtualPools : Nat) : State :=
  { virtualBmanPools := fun i => ⟨-1, (s.virtualBmanPools i).bmanPoolId⟩
    virtualPool := fun id =>
      if id < numOfVirtualPools then { memory id with maxBufs := 0 } else memory id
    numOfVirtualPools := numOfVirtualPools
    total := fun _ => none
    held := s.held }

def vpoolInitTotalBmanBufs (slDebug : Bool) (s : State) (bmanPoolId : Nat)
    (totalAvailBufs : Int) : Status × State :=
  if slDebug ∧ maxVirtualBmanPoolsNum ≤ bmanPoolId then (.illegalArgs, s)
  else
    match (List.range maxVirtualBmanPoolsNum).find?
        (fun i => decide ((s.virtualBmanPools i).remaining = -1)) with
    | none => (.success, s)
    | some i =>
        (.success, { s with
          virtualBmanPools := Function.update s.virtualBmanPools i ⟨totalAvailBufs, bmanPoolId⟩
          total := Function.update s.total i (some totalAvailBufs) })

inductive Area where
  | committed | remaining
  deriving DecidableEq, Repr

def VirtualPoolDesc.allocate (p : VirtualPoolDesc) (remaining : Int) : Option Area :=
  if p.allocatedBufs < p.committedBufs then some .committed
  else if p.allocatedBufs < p.maxBufs ∧ 0 < remaining then some .remaining
  else none

def State.count (s : State) (id : Nat) : Area → State
  | .committed =>
      s.setPool id { s.virtualPool id with allocatedBufs := (s.virtualPool id).allocatedBufs + 1 }
  | .remaining =>
      let index := (s.virtualPool id).bmanArrayIndex
      (s.setRemaining index ((s.virtualBmanPools index).remaining - 1)).setPool id
        { s.virtualPool id with allocatedBufs := (s.virtualPool id).allocatedBufs + 1 }

def State.undo (s : State) (id : Nat) : Area → State
  | .committed =>
      s.setPool id { s.virtualPool id with allocatedBufs := (s.virtualPool id).allocatedBufs - 1 }
  | .remaining =>
      let index := (s.virtualPool id).bmanArrayIndex
      (s.setPool id { s.virtualPool id with
        allocatedBufs := (s.virtualPool id).allocatedBufs - 1 }).setRemaining index
          ((s.virtualBmanPools index).remaining + 1)

-- `cdma` says whether the accelerator hands out a buffer.
def vpoolAllocateBuf (s : State) (id : Nat) (cdma : Bool) : Status × State :=
  let p := s.virtualPool id
  match p.allocate (s.virtualBmanPools p.bmanArrayIndex).remaining with
  | none => (.bufAllocFail, s)
  | some area =>
      if cdma then (.success, (s.count id area).setHeld id (s.held id + 1))
      else (.cdmaErr, (s.count id area).undo id area)

def vpoolReleaseBuf (s : State) (id : Nat) : State :=
  let p := s.virtualPool id
  let s := if p.committedBufs < p.allocatedBufs then s.setRemaining p.bmanArrayIndex
      ((s.virtualBmanPools p.bmanArrayIndex).remaining + 1) else s
  (s.setPool id { p with allocatedBufs := p.allocatedBufs - 1 }).setHeld id (s.held id - 1)

def State.Live (s : State) (id : Nat) : Prop :=
  id < s.numOfVirtualPools ∧ (s.virtualPool id).maxBufs ≠ 0

instance (s : State) (id : Nat) : Decidable (s.Live id) := inferInstanceAs (Decidable (_ ∧ _))

inductive Call where
  | init (memory : Nat → VirtualPoolDesc) (numOfVirtualPools : Nat)
  | initTotal (bmanPoolId : Nat) (totalAvailBufs : Int)
  | createPool (bmanPoolId : Nat) (maxBufs committedBufs : Int)
  | releasePool (id : Nat)
  | allocateBuf (id : Nat) (cdma : Bool)
  | releaseBuf (id : Nat)

def State.call (slDebug : Bool) (s : State) : Call → State
  | .init memory num => vpoolInit s memory num
  | .initTotal bmanPoolId total => (vpoolInitTotalBmanBufs slDebug s bmanPoolId total).2
  | .createPool bmanPoolId maxBufs committedBufs =>
      (vpoolCreatePool slDebug s bmanPoolId maxBufs committedBufs).2
  | .releasePool id => (vpoolReleasePool s id).2
  | .allocateBuf id cdma => (vpoolAllocateBuf s id cdma).2
  | .releaseBuf id => vpoolReleaseBuf s id

def State.Legal (s : State) : Call → Prop
  | .init _ _ => True
  | .initTotal _ total => 0 ≤ total
  | .createPool _ maxBufs committedBufs => 1 ≤ committedBufs ∧ committedBufs ≤ maxBufs
  | .releasePool id => s.Live id
  | .allocateBuf id _ => s.Live id
  | .releaseBuf id => 0 < s.held id

def State.Sound (s : State) : Call → Prop
  | .init _ _ => ∀ id, s.held id = 0
  | .createPool bmanPoolId _ committedBufs =>
      (s.virtualBmanPools (s.bmanArrayIndex bmanPoolId)).remaining < committedBufs ∨
        s.freeId.isSome
  | _ => True

inductive Reached (slDebug : Bool) : State → Prop where
  | boot : Reached slDebug .boot
  | call {s : State} (c : Call) : Reached slDebug s → s.Legal c → s.Sound c →
      Reached slDebug (s.call slDebug c)

def VirtualPoolDesc.takes (i : Nat) (p : VirtualPoolDesc) : Int :=
  if p.maxBufs ≠ 0 ∧ p.bmanArrayIndex = i then max p.committedBufs p.allocatedBufs else 0

def State.taken (s : State) (i : Nat) : Int :=
  owed (Finset.range s.numOfVirtualPools) (VirtualPoolDesc.takes i) s.virtualPool

theorem takesFree {p : VirtualPoolDesc} (free : p.maxBufs = 0) (i : Nat) : p.takes i = 0 :=
  if_neg (fun h => h.1 free)

theorem takesOther {p : VirtualPoolDesc} {i : Nat} (other : i ≠ p.bmanArrayIndex) :
    p.takes i = 0 :=
  if_neg (fun h => other h.2.symm)

theorem takesLive {p : VirtualPoolDesc} (live : p.maxBufs ≠ 0) :
    p.takes p.bmanArrayIndex = max p.committedBufs p.allocatedBufs :=
  if_pos ⟨live, rfl⟩

variable {s : State}

theorem takenSetPool {id : Nat} (inside : id < s.numOfVirtualPools) (p : VirtualPoolDesc) (i : Nat) :
    (s.setPool id p).taken i = s.taken i - (s.virtualPool id).takes i + p.takes i :=
  owedUpdate (Finset.mem_range.mpr inside) p

theorem remainingSet (s : State) (i : Nat) (n : Int) (j : Nat) :
    ((s.setRemaining i n).virtualBmanPools j).remaining =
      if j = i then n else (s.virtualBmanPools j).remaining := by
  by_cases same : j = i
  · subst same
    simp [State.setRemaining]
  · simp [State.setRemaining, same]

structure Ok (s : State) : Prop where
  registered : ∀ i total, s.total i = some total →
    0 ≤ (s.virtualBmanPools i).remaining ∧ (s.virtualBmanPools i).remaining + s.taken i = total
  unregistered : ∀ i, s.total i = none → (s.virtualBmanPools i).remaining ≤ 0
  live : ∀ id, s.Live id → (s.total (s.virtualPool id).bmanArrayIndex).isSome ∧
    0 ≤ (s.virtualPool id).committedBufs ∧ (s.virtualPool id).allocatedBufs = s.held id
  dead : ∀ id, ¬ s.Live id → s.held id = 0

theorem okMove (ok : Ok s) {id j : Nat} {p : VirtualPoolDesc} {n : Int} {h : Nat}
    (inside : id < s.numOfVirtualPools) (backed : (s.total j).isSome) (nonneg : 0 ≤ n)
    (moved : n + p.takes j =
      (s.virtualBmanPools j).remaining + (s.virtualPool id).takes j)
    (others : ∀ i, i ≠ j → p.takes i = (s.virtualPool id).takes i)
    (live : p.maxBufs ≠ 0 → p.bmanArrayIndex = j ∧ 0 ≤ p.committedBufs ∧ p.allocatedBufs = h)
    (dead : p.maxBufs = 0 → h = 0) :
    Ok (((s.setRemaining j n).setPool id p).setHeld id h) := by
  have taken : ∀ i, (((s.setRemaining j n).setPool id p).setHeld id h).taken i =
      s.taken i - (s.virtualPool id).takes i + p.takes i :=
    fun i => takenSetPool (s := s.setRemaining j n) inside p i
  have left : ∀ i, ((((s.setRemaining j n).setPool id p).setHeld id h).virtualBmanPools i).remaining
      = if i = j then n else (s.virtualBmanPools i).remaining := remainingSet s j n
  refine ⟨?_, ?_, ?_, ?_⟩
  · intro i total found
    obtain ⟨low, sum⟩ := ok.registered i total found
    rw [left i, taken i]
    split
    · rename_i same
      subst same
      exact ⟨nonneg, by omega⟩
    · rename_i other
      have := others i other
      exact ⟨low, by omega⟩
  · intro i unset
    rw [left i, if_neg]
    · exact ok.unregistered i unset
    · rintro rfl
      rw [show s.total i = none from unset] at backed
      cases backed
  · intro other isLive
    by_cases same : other = id
    · subst same
      have nonzero : p.maxBufs ≠ 0 := by simpa [State.Live, State.setPool, State.setHeld] using isLive.2
      obtain ⟨at_, committed, count⟩ := live nonzero
      simpa [State.setPool, State.setHeld, State.setRemaining, at_, committed, count] using backed
    · have old : s.Live other := by
        simpa [State.Live, State.setPool, State.setHeld, State.setRemaining, same] using isLive
      simpa [State.setPool, State.setHeld, State.setRemaining, same] using ok.live other old
  · intro other isDead
    by_cases same : other = id
    · subst same
      have zero : p.maxBufs = 0 := by
        by_contra nonzero
        exact isDead ⟨inside, by simpa [State.setPool, State.setHeld] using nonzero⟩
      simpa [State.setHeld] using dead zero
    · have old : ¬ s.Live other := by
        simpa [State.Live, State.setPool, State.setHeld, State.setRemaining, same] using isDead
      simpa [State.setPool, State.setHeld, State.setRemaining, same] using ok.dead other old

theorem bmanFound (ok : Ok s) {i : Nat} {n : Int} (pos : 1 ≤ n)
    (enough : n ≤ (s.virtualBmanPools i).remaining) : (s.total i).isSome := by
  cases found : s.total i with
  | none =>
    have := ok.unregistered i found
    omega
  | some total => rfl

theorem freeIdFound {id : Nat} (found : s.freeId = some id) :
    id < s.numOfVirtualPools ∧ (s.virtualPool id).maxBufs = 0 := by
  obtain ⟨zero, mem, _⟩ := List.find?_range_eq_some.mp found
  exact ⟨List.mem_range.mp mem, of_decide_eq_true zero⟩

variable {maxBufs committedBufs : Int}

theorem createCases (slDebug : Bool) (s : State) (bmanPoolId : Nat)
    (legal : 1 ≤ committedBufs ∧ committedBufs ≤ maxBufs) :
    let index := s.bmanArrayIndex bmanPoolId
    let rest := (s.virtualBmanPools index).remaining - committedBufs
    let out := vpoolCreatePool slDebug s bmanPoolId maxBufs committedBufs
    ((slDebug = true ∧ maxVirtualBmanPoolsNum ≤ bmanPoolId) ∧ out = (.illegalArgs, s)) ∨
    ¬ (slDebug = true ∧ maxVirtualBmanPoolsNum ≤ bmanPoolId) ∧
      ((rest < 0 ∧ out = (.insufficientBuffers, s)) ∨
      (0 ≤ rest ∧ s.freeId = none ∧ out = (.idAllocFail, s.setRemaining index rest)) ∨
      ∃ id, 0 ≤ rest ∧ s.freeId = some id ∧ out = (.success,
        ((s.setRemaining index rest).setPool id ⟨maxBufs, committedBufs, 0, index⟩).setHeld id 0)) := by
  intro index rest out
  have same : (s.setRemaining index rest).freeId = s.freeId := rfl
  have shape : out = vpoolCreatePool slDebug s bmanPoolId maxBufs committedBufs := rfl
  unfold vpoolCreatePool at shape
  split at shape
  · rename_i bad
    exact .inl ⟨⟨bad.1, by omega⟩, shape⟩
  · rename_i good
    refine .inr ⟨fun bad => good ⟨bad.1, .inl bad.2⟩, ?_⟩
    dsimp only at shape
    split at shape
    · rename_i enough
      cases found : s.freeId with
      | none =>
        rw [same.trans found] at shape
        exact .inr (.inl ⟨Int.sub_nonneg_of_le enough, rfl, shape⟩)
      | some id =>
        rw [same.trans found] at shape
        exact .inr (.inr ⟨id, Int.sub_nonneg_of_le enough, rfl, shape⟩)
    · rename_i few
      exact .inl ⟨Int.sub_neg_of_lt (Int.not_le.mp few), shape⟩

theorem createOk {slDebug : Bool} (ok : Ok s) {bmanPoolId : Nat} (legal : 1 ≤ committedBufs ∧ committedBufs ≤ maxBufs)
    (sound : (s.virtualBmanPools (s.bmanArrayIndex bmanPoolId)).remaining < committedBufs ∨
      s.freeId.isSome) : Ok (vpoolCreatePool slDebug s bmanPoolId maxBufs committedBufs).2 := by
  rcases createCases slDebug s bmanPoolId legal with
    ⟨_, out⟩ | ⟨_, ⟨_, out⟩ | ⟨enough, none, _⟩ | ⟨id, enough, found, out⟩⟩
  · rw [out]
    exact ok
  · rw [out]
    exact ok
  · rcases sound with few | some_
    · omega
    · rw [none] at some_
      cases some_
  · rw [out]
    obtain ⟨inside, zero⟩ := freeIdFound found
    have used : maxBufs ≠ 0 := by omega
    refine okMove ok inside (bmanFound ok legal.1 (by omega)) enough ?_ ?_ ?_ ?_
    · have own := @takesLive ⟨maxBufs, committedBufs, 0, s.bmanArrayIndex bmanPoolId⟩ used
      simp only at own
      rw [own, takesFree zero]
      omega
    · intro i other
      rw [takesFree zero, takesOther other]
    · intro _
      exact ⟨rfl, by simp only; omega, rfl⟩
    · intro _
      rfl

theorem releasePoolOk (ok : Ok s) {id : Nat} (isLive : s.Live id) : Ok (vpoolReleasePool s id).2 := by
  unfold vpoolReleasePool
  dsimp only
  split
  · exact ok
  · rename_i none
    obtain ⟨backed, committed, count⟩ := ok.live id isLive
    obtain ⟨total, found⟩ := Option.isSome_iff_exists.mp backed
    have low := (ok.registered _ total found).1
    have zero : s.held id = 0 := by omega
    have shape : (s.setPool id { s.virtualPool id with maxBufs := 0 }).setRemaining
        (s.virtualPool id).bmanArrayIndex
        ((s.virtualBmanPools (s.virtualPool id).bmanArrayIndex).remaining +
          (s.virtualPool id).committedBufs) =
        ((s.setRemaining (s.virtualPool id).bmanArrayIndex
          ((s.virtualBmanPools (s.virtualPool id).bmanArrayIndex).remaining +
            (s.virtualPool id).committedBufs)).setPool id
          { s.virtualPool id with maxBufs := 0 }).setHeld id 0 := by
      have kept : Function.update s.held id 0 = s.held := by
        rw [← zero]
        exact Function.update_eq_self id s.held
      simp only [State.setPool, State.setRemaining, State.setHeld, kept]
    simp only [shape]
    refine okMove ok isLive.1 backed (by omega) ?_ ?_ ?_ ?_
    · rw [takesLive isLive.2, takesFree rfl]
      omega
    · intro i other
      rw [takesOther other, takesFree rfl]
    · intro nonzero
      exact absurd rfl nonzero
    · intro _
      rfl

theorem undoCount (s : State) (id : Nat) (area : Area) : (s.count id area).undo id area = s := by
  have pools : ∀ p, Function.update (Function.update s.virtualPool id p) id (s.virtualPool id) =
      s.virtualPool := by
    intro p
    rw [Function.update_idem, Function.update_eq_self]
  have bmans : ∀ i b, Function.update (Function.update s.virtualBmanPools i b) i
      (s.virtualBmanPools i) = s.virtualBmanPools := by
    intro i b
    rw [Function.update_idem, Function.update_eq_self]
  cases area with
  | committed =>
    simp only [State.count, State.undo, State.setPool, Function.update_self, Int.add_sub_cancel,
      pools]
  | remaining =>
    simp only [State.count, State.undo, State.setPool, State.setRemaining, Function.update_self,
      Int.sub_add_cancel, Int.add_sub_cancel, pools, bmans]

section Live

variable {s : State} {id : Nat}

theorem setRemainingSelf (s : State) (i : Nat) :
    s.setRemaining i (s.virtualBmanPools i).remaining = s := by
  simp [State.setRemaining]

theorem okCount (ok : Ok s) (isLive : s.Live id) {a n : Int} {h : Nat} (nonneg : 0 ≤ n)
    (held : a = h)
    (moved : n + max (s.virtualPool id).committedBufs a =
      (s.virtualBmanPools (s.virtualPool id).bmanArrayIndex).remaining +
        max (s.virtualPool id).committedBufs (s.virtualPool id).allocatedBufs) :
    Ok (((s.setRemaining (s.virtualPool id).bmanArrayIndex n).setPool id
      { s.virtualPool id with allocatedBufs := a }).setHeld id h) := by
  obtain ⟨backed, committed, _⟩ := ok.live id isLive
  refine okMove ok isLive.1 backed nonneg ?_ ?_ ?_ ?_
  · rw [takesLive isLive.2]
    exact (congrArg (n + ·) (@takesLive { s.virtualPool id with allocatedBufs := a } isLive.2)).trans
      moved
  · intro i other
    exact (@takesOther { s.virtualPool id with allocatedBufs := a } i other).trans
      (takesOther other).symm
  · intro _
    exact ⟨rfl, committed, held⟩
  · intro zero
    exact absurd zero isLive.2

theorem liveRemaining (ok : Ok s) (isLive : s.Live id) :
    0 ≤ (s.virtualBmanPools (s.virtualPool id).bmanArrayIndex).remaining := by
  obtain ⟨total, found⟩ := Option.isSome_iff_exists.mp (ok.live id isLive).1
  exact (ok.registered _ total found).1

theorem allocateOk (ok : Ok s) (isLive : s.Live id) (cdma : Bool) :
    Ok (vpoolAllocateBuf s id cdma).2 := by
  have count := (ok.live id isLive).2.2
  have low := liveRemaining ok isLive
  unfold vpoolAllocateBuf
  dsimp only
  split
  · exact ok
  · rename_i area chosen
    cases cdma with
    | false =>
      simp only [Bool.false_eq_true, if_false, undoCount]
      exact ok
    | true =>
      simp only [if_true]
      unfold VirtualPoolDesc.allocate at chosen
      cases area with
      | committed =>
        have room : (s.virtualPool id).allocatedBufs < (s.virtualPool id).committedBufs := by
          by_contra full
          rw [if_neg full] at chosen
          split at chosen <;> cases chosen
        have next := okCount ok isLive (a := (s.virtualPool id).allocatedBufs + 1)
          (h := s.held id + 1) low (by omega) (by omega)
        rw [setRemainingSelf] at next
        exact next
      | remaining =>
        have full : ¬ (s.virtualPool id).allocatedBufs < (s.virtualPool id).committedBufs := by
          intro room
          rw [if_pos room] at chosen
          cases chosen
        have room : 0 < (s.virtualBmanPools (s.virtualPool id).bmanArrayIndex).remaining := by
          by_contra empty
          rw [if_neg full, if_neg (fun both => empty both.2)] at chosen
          cases chosen
        exact okCount ok isLive (by omega) (by omega) (by omega)

theorem releaseBufOk (ok : Ok s) (has : 0 < s.held id) : Ok (vpoolReleaseBuf s id) := by
  have isLive : s.Live id := by
    by_contra gone
    have := ok.dead id gone
    omega
  have count := (ok.live id isLive).2.2
  have low := liveRemaining ok isLive
  unfold vpoolReleaseBuf
  dsimp only
  split
  · exact okCount ok isLive (by omega) (by simp only [State.setRemaining]; omega) (by omega)
  · have next := okCount ok isLive (a := (s.virtualPool id).allocatedBufs - 1)
      (h := s.held id - 1) low (by omega) (by omega)
    rw [setRemainingSelf] at next
    exact next

end Live

theorem initOk (idle : ∀ id, s.held id = 0) (memory : Nat → VirtualPoolDesc)
    (num : Nat) : Ok (vpoolInit s memory num) := by
  have none : ∀ id, ¬ (vpoolInit s memory num).Live id := by
    rintro id ⟨inside, used⟩
    have lt : id < num := inside
    simp [vpoolInit, lt] at used
  refine ⟨?_, ?_, ?_, ?_⟩
  · intro i total found
    cases found
  · intro i _
    simp [vpoolInit]
  · intro id isLive
    exact absurd isLive (none id)
  · intro id _
    exact idle id

theorem takenNone (ok : Ok s) {i : Nat} (unset : s.total i = none) : s.taken i = 0 := by
  apply owedZero
  intro id inside
  by_cases used : (s.virtualPool id).maxBufs = 0
  · exact takesFree used i
  · apply takesOther
    rintro rfl
    have backed := (ok.live id ⟨Finset.mem_range.mp inside, used⟩).1
    rw [unset] at backed
    cases backed

theorem initTotalOk {slDebug : Bool} (ok : Ok s) {bmanPoolId : Nat} {total : Int}
    (legal : 0 ≤ total) : Ok (vpoolInitTotalBmanBufs slDebug s bmanPoolId total).2 := by
  unfold vpoolInitTotalBmanBufs
  split
  · exact ok
  · split
    · exact ok
    · rename_i i found
      have empty : (s.virtualBmanPools i).remaining = -1 :=
        of_decide_eq_true (List.find?_range_eq_some.mp found).1
      have unset : s.total i = none := by
        cases set : s.total i with
        | none => rfl
        | some old =>
          have := (ok.registered i old set).1
          omega
      refine ⟨?_, ?_, ?_, ok.dead⟩
      · intro j t at_
        by_cases same : j = i
        · subst same
          have none : s.taken j = 0 := takenNone ok unset
          simp only [Function.update_self, Option.some.injEq] at at_ ⊢
          exact ⟨legal, by rw [← at_]; show total + s.taken j = total; omega⟩
        · simp only [Function.update_of_ne same] at at_ ⊢
          exact ok.registered j t at_
      · intro j at_
        by_cases same : j = i
        · subst same
          simp at at_
        · simp only [Function.update_of_ne same] at at_ ⊢
          exact ok.unregistered j at_
      · intro id isLive
        obtain ⟨backed, rest⟩ := ok.live id isLive
        have other : (s.virtualPool id).bmanArrayIndex ≠ i := by
          rintro rfl
          rw [unset] at backed
          cases backed
        exact ⟨by simpa only [Function.update_of_ne other] using backed, rest⟩

theorem reachedOk {slDebug : Bool} (reached : Reached slDebug s) : Ok s := by
  induction reached with
  | boot => exact ⟨by simp [State.boot], by simp [State.boot], by simp [State.Live, State.boot],
      by simp [State.boot]⟩
  | @call s c _ legal sound ok =>
    cases c with
    | init memory num => exact initOk sound memory num
    | initTotal bmanPoolId total => exact initTotalOk ok legal
    | createPool bmanPoolId maxBufs committedBufs => exact createOk ok legal sound
    | releasePool id => exact releasePoolOk ok legal
    | allocateBuf id cdma => exact allocateOk ok legal cdma
    | releaseBuf id => exact releaseBufOk ok legal

theorem createFailed (slDebug : Bool) (s : State) (bmanPoolId : Nat)
    (legal : 1 ≤ committedBufs ∧ committedBufs ≤ maxBufs) :
    ((vpoolCreatePool slDebug s bmanPoolId maxBufs committedBufs).1 ≠ .success →
      (vpoolCreatePool slDebug s bmanPoolId maxBufs committedBufs).2 = s) ↔
    (slDebug = true ∧ maxVirtualBmanPoolsNum ≤ bmanPoolId) ∨
      s.Sound (.createPool bmanPoolId maxBufs committedBufs) := by
  rcases createCases slDebug s bmanPoolId legal with
    ⟨illegal, out⟩ | ⟨good, ⟨few, out⟩ | ⟨enough, none, out⟩ | ⟨id, enough, found, out⟩⟩
  · rw [out]
    exact ⟨fun _ => .inl illegal, fun _ _ => rfl⟩
  · rw [out]
    exact ⟨fun _ => .inr (.inl (by omega)), fun _ _ => rfl⟩
  · rw [out]
    constructor
    · intro unchanged
      have kept : s.setRemaining (s.bmanArrayIndex bmanPoolId)
          ((s.virtualBmanPools (s.bmanArrayIndex bmanPoolId)).remaining - committedBufs) = s :=
        unchanged (fun eq => by cases eq)
      have left := remainingSet s (s.bmanArrayIndex bmanPoolId)
        ((s.virtualBmanPools (s.bmanArrayIndex bmanPoolId)).remaining - committedBufs)
        (s.bmanArrayIndex bmanPoolId)
      rw [kept, if_pos rfl] at left
      omega
    · rintro (illegal | few | some_)
      · exact absurd illegal good
      · omega
      · rw [none] at some_
        cases some_
  · rw [out]
    exact ⟨fun _ => .inr (.inr (by rw [found]; rfl)), fun _ failed => absurd rfl failed⟩

theorem poolsBalance {slDebug : Bool} {s : State} (reached : Reached slDebug s) :
    (∀ i total, s.total i = some total →
      (s.virtualBmanPools i).remaining + s.taken i = total) ∧
    ∀ (bmanPoolId : Nat) (maxBufs committedBufs : Int),
      1 ≤ committedBufs ∧ committedBufs ≤ maxBufs →
      (((vpoolCreatePool slDebug s bmanPoolId maxBufs committedBufs).1 ≠ .success →
        (vpoolCreatePool slDebug s bmanPoolId maxBufs committedBufs).2 = s) ↔
      (slDebug = true ∧ maxVirtualBmanPoolsNum ≤ bmanPoolId) ∨
        s.Sound (.createPool bmanPoolId maxBufs committedBufs)) :=
  ⟨fun i total found => ((reachedOk reached).registered i total found).2,
    fun bmanPoolId _ _ legal => createFailed slDebug s bmanPoolId legal⟩

def smallState : State :=
  (((State.boot.call true (.init (fun _ => ⟨0, 0, 0, 0⟩) 1)).call true (.initTotal 5 10)).call true
    (.createPool 5 6 4)).call true (.allocateBuf 0 true)

theorem poolsBalanceSmall :
    Reached true smallState ∧ (smallState.virtualBmanPools 0).remaining + smallState.taken 0 = 10 := by
  have start : Reached true (State.boot.call true (.init (fun _ => ⟨0, 0, 0, 0⟩) 1)) :=
    .call _ .boot (by trivial) (fun _ => rfl)
  have filled := Reached.call (.initTotal 5 10) start (show (0 : Int) ≤ 10 by decide) (by trivial)
  have created := Reached.call (.createPool 5 6 4) filled ⟨by decide, by decide⟩ (.inr (by decide))
  have live : State.Live _ 0 := (by decide : (((State.boot.call true
    (.init (fun _ => ⟨0, 0, 0, 0⟩) 1)).call true (.initTotal 5 10)).call true
    (.createPool 5 6 4)).Live 0)
  have reached : Reached true smallState :=
    .call (.allocateBuf 0 true) created live (by trivial)
  exact ⟨reached, (poolsBalance reached).1 0 10 (by decide)⟩

theorem createLosesBuffers :
    (smallState.virtualBmanPools 0).remaining + smallState.taken 0 = 10 ∧
      (vpoolCreatePool true smallState 5 6 4).1 = .idAllocFail ∧
      ((vpoolCreatePool true smallState 5 6 4).2.virtualBmanPools 0).remaining +
        (vpoolCreatePool true smallState 5 6 4).2.taken 0 = 6 := by
  decide

end Flexbuild.VirtualPools
