import Mathlib.Data.BitVec
import Mathlib.Tactic.Common
import Flexbuild.Cores

/-! Frames between `enqueue_fd` and their reception. Threads enqueue and receive side by side; the
two counters go up before a frame is handed over, since it may come back during the call, and come
down when it is refused or received. -/
namespace Flexbuild.DceFlight
open Cores

-- `DCE_CODE (word_offset, lsb_offset, bit_width)`, all in the word FRC.
structure Code where
  lsoffset : Nat
  width : Nat
  deriving DecidableEq, Repr

def Code.mask (c : Code) : BitVec 32 := BitVec.ofNat 32 (2 ^ c.width - 1)

def Code.decode (c : Code) (word : BitVec 32) : BitVec 32 := (word >>> c.lsoffset) &&& c.mask

def Code.encode (c : Code) (word val : BitVec 32) : BitVec 32 :=
  (~~~(c.mask <<< c.lsoffset) &&& word) ||| ((val &&& c.mask) <<< c.lsoffset)

def codeCmd : Code := ⟨29, 3⟩
def codeNopToken : Code := ⟨0, 29⟩
def codeCicToken : Code := ⟨0, 29⟩
def codeScrf : Code := ⟨22, 1⟩
def codeSf : Code := ⟨28, 1⟩

inductive Cmd where
  | process | fqidScopeFlush | ctxInvalidate | icidScopeFlush | nop | unknown
  deriving DecidableEq, Repr

def Cmd.decoded : Nat → Cmd
  | 0 => .process
  | 3 => .fqidScopeFlush
  | 4 => .ctxInvalidate
  | 6 => .icidScopeFlush
  | 7 => .nop
  | _ => .unknown

structure Fd where
  frc : BitVec 32
  addr : Nat
  flc : Nat
  deriving DecidableEq, Repr

def Fd.cmd (fd : Fd) : Cmd := .decoded (codeCmd.decode fd.frc).toNat

inductive Engine where
  | compression | decompression
  deriving DecidableEq, Repr

def err010843DceRev : Nat := 0x0AF0020000000100

def cleanupFrc : BitVec 32 := 0x10000000

-- A DPDCEI with the flows created on it, by their addresses. `workaround` is the address in the
-- workaround frame.
structure Dpdcei where
  version : Nat
  engine : Engine
  workaround : Nat
  flows : List Nat
  flc : Nat → Nat
  key : Nat → BitVec 32
  table : BitVec 32 → Nat
  registered : ∀ f ∈ flows, table (key f) = f
  small : ∀ f ∈ flows, (key f).toNat < 65535

def Dpdcei.applies (d : Dpdcei) (fd : Fd) : Bool :=
  decide (fd.cmd = .process ∧ d.version ≤ err010843DceRev ∧ d.engine = .decompression ∧
    codeSf.decode fd.frc ≠ 0)

def Dpdcei.prepared (d : Dpdcei) (flow : Nat) (fd : Fd) : Option Fd :=
  match fd.cmd with
  | .nop => some { fd with flc := d.flc flow, frc := codeNopToken.encode fd.frc (d.key flow) }
  | .ctxInvalidate => some { fd with flc := d.flc flow, frc := codeCicToken.encode fd.frc (d.key flow) }
  | .process => some { fd with flc := d.flc flow }
  | _ => none

-- The flow that a received frame is counted for, `none` where the loop goes on. `stale` is the flow
-- of the frame before.
def Dpdcei.received (d : Dpdcei) (stale : Nat) (fd : Fd) : Option Nat :=
  if codeScrf.decode fd.frc = cleanupFrc then none
  else if fd.addr = d.workaround then none
  else
    match fd.cmd with
    | .nop => some (d.table (codeNopToken.decode fd.frc))
    | .ctxInvalidate => none
    | .fqidScopeFlush => none
    | .process => some fd.flc
    | _ => some stale

def Answers (flow : Nat) (sent back : Fd) : Prop :=
  back.addr = sent.addr ∧ back.cmd = sent.cmd ∧ (sent.cmd = .process → back.flc = flow) ∧
    (sent.cmd = .nop → codeNopToken.decode back.frc = codeNopToken.decode sent.frc)

instance (flow : Nat) (sent back : Fd) : Decidable (Answers flow sent back) := by
  unfold Answers
  infer_instance

-- What `dpaa2_io_service_enqueue_fq` returns: 0 for a frame that is accepted.
abbrev Outcome := {z : Int // z ≤ 0}

inductive Point where
  | idle
  | begun (flow : Nat) (fd : Fd)
  | totalCounted (flow : Nat) (fd : Fd)
  | counted (flow : Nat) (fd : Fd)
  | sent (flow : Nat) (fd : Fd) (err : Outcome)
  | totalUndone (flow : Nat) (fd : Fd) (err : Outcome)
  | settled (flow : Nat) (fd : Fd) (err : Outcome)
  | receiving (flow : Nat)
  | totalReceived (flow : Nat)

structure Call where
  flow : Nat
  fd : Fd
  err : Outcome
  second : Outcome
  ret : Int
  deriving DecidableEq, Repr

structure State (κ : Type) where
  total : Int
  perFlow : Nat → Int
  inFlight : List (Nat × Fd)
  back : List (Nat × Fd)
  lock : Option κ
  calls : List Call
  at_ : κ → Point

inductive Action (κ : Type) where
  | enter (k : κ) (flow : Nat) (fd : Fd)
  | advance (k : κ)
  | enqueue (k : κ) (err : Outcome)
  | finish (k : κ) (second : Outcome)
  | receive (k : κ) (i : Nat) (fd : Fd) (stale : Nat)

def start (κ : Type) : State κ :=
  { total := 0, perFlow := fun _ => 0, inFlight := [], back := [], lock := none, calls := [], at_ := fun _ => .idle }

variable {κ : Type} [DecidableEq κ]

def State.moved (s : State κ) (k : κ) (v : Point) : State κ := { s with at_ := Function.update s.at_ k v }

def State.addFlow (s : State κ) (flow : Nat) (n : Int) : State κ :=
  { s with perFlow := Function.update s.perFlow flow (s.perFlow flow + n) }

def State.advance (s : State κ) (k : κ) : Option (State κ) :=
  match s.at_ k with
  | .begun flow fd => some ({ s with total := s.total + 1 }.moved k (.totalCounted flow fd))
  | .totalCounted flow fd => some ((s.addFlow flow 1).moved k (.counted flow fd))
  | .sent flow fd err =>
      if err.val < 0 then some ({ s with total := s.total - 1 }.moved k (.totalUndone flow fd err))
      else some (s.moved k (.settled flow fd err))
  | .totalUndone flow fd err => some ((s.addFlow flow (-1)).moved k (.settled flow fd err))
  | .receiving flow => some ({ s with total := s.total - 1 }.moved k (.totalReceived flow))
  | .totalReceived flow => some ((s.addFlow flow (-1)).moved k .idle)
  | _ => none

def State.step (d : Dpdcei) (s : State κ) : Action κ → Option (State κ)
  | .enter k flow fd =>
      match s.at_ k, d.prepared flow fd with
      | .idle, some fd =>
          if flow ∈ d.flows ∧ fd.addr ≠ d.workaround ∧ ¬ (d.applies fd ∧ s.lock.isSome) then
            some ({ s with lock := if d.applies fd then some k else s.lock }.moved k (.begun flow fd))
          else none
      | _, _ => none
  | .advance k => s.advance k
  | .enqueue k err =>
      match s.at_ k with
      | .counted flow fd =>
          some ({ s with inFlight := if err.val = 0 then s.inFlight ++ [(flow, fd)] else s.inFlight }.moved k
            (.sent flow fd err))
      | _ => none
  | .finish k second =>
      match s.at_ k with
      | .settled flow fd err =>
          let ret := if d.applies fd then second.val else err.val
          some ({ s with
            lock := if d.applies fd then none else s.lock
            calls := s.calls ++ [(⟨flow, fd, err, second, ret⟩ : Call)] }.moved k .idle)
      | _ => none
  | .receive k i fd stale =>
      match s.at_ k, s.inFlight[i]? with
      | .idle, some (flow, sent) =>
          if Answers flow sent fd then
            let s := { s with inFlight := s.inFlight.eraseIdx i, back := s.back ++ [(flow, sent)] }
            match d.received stale fd with
            | none => some s
            | some found => some (s.moved k (.receiving found))
          else none
      | _, _ => none

def State.run (d : Dpdcei) (s : State κ) : List (Action κ) → Option (State κ)
  | [] => some s
  | action :: rest => (s.step d action).bind fun s => s.run d rest

section Codes

variable {c e : Code} {word val : BitVec 32}

theorem maskBit (c : Code) (i : Nat) : c.mask.getLsbD i = decide (i < 32 ∧ i < c.width) := by
  unfold Code.mask
  rw [BitVec.getLsbD_ofNat, Nat.testBit_two_pow_sub_one]
  simp

theorem decodeBit (c : Code) (word : BitVec 32) (i : Nat) :
    (c.decode word).getLsbD i = (decide (i < 32 ∧ i < c.width) && word.getLsbD (c.lsoffset + i)) := by
  unfold Code.decode
  rw [BitVec.getLsbD_and, BitVec.getLsbD_ushiftRight, maskBit, Bool.and_comm]

theorem encodeBit (c : Code) (word val : BitVec 32) {i : Nat} (lt : i < 32) : (c.encode word val).getLsbD i =
    if c.lsoffset ≤ i ∧ i < c.lsoffset + c.width then val.getLsbD (i - c.lsoffset) else word.getLsbD i := by
  unfold Code.encode
  simp only [BitVec.getLsbD_or, BitVec.getLsbD_and, BitVec.getLsbD_not, BitVec.getLsbD_shiftLeft, maskBit, lt,
    decide_true, Bool.true_and]
  by_cases low : i < c.lsoffset
  · have outside : ¬ (c.lsoffset ≤ i ∧ i < c.lsoffset + c.width) := by omega
    simp [low, outside]
  · by_cases inside : i < c.lsoffset + c.width
    · have within : i - c.lsoffset < 32 ∧ i - c.lsoffset < c.width := by omega
      have field : c.lsoffset ≤ i ∧ i < c.lsoffset + c.width := by omega
      simp [low, within, field]
    · have beyond : ¬ (i - c.lsoffset < c.width) := by omega
      have outside : ¬ (c.lsoffset ≤ i ∧ i < c.lsoffset + c.width) := by omega
      simp [low, beyond, outside]

theorem decodeEncode (inside : c.lsoffset + c.width ≤ 32) (small : val.toNat < 2 ^ c.width) :
    c.decode (c.encode word val) = val := by
  apply BitVec.eq_of_getLsbD_eq
  intro i lt
  rw [decodeBit]
  by_cases within : i < c.width
  · rw [encodeBit c word val (by omega), if_pos (by omega), Nat.add_sub_cancel_left]
    simp [lt, within]
  · have clear : val.getLsbD i = false := by
      rw [← BitVec.testBit_toNat]
      exact Nat.testBit_lt_two_pow (small.trans_le (Nat.pow_le_pow_right (by decide) (by omega)))
    simp [within, clear]

theorem decodeOther (apart : c.lsoffset + c.width ≤ e.lsoffset) (inside : e.lsoffset + e.width ≤ 32) :
    e.decode (c.encode word val) = e.decode word := by
  apply BitVec.eq_of_getLsbD_eq
  intro i lt
  rw [decodeBit, decodeBit]
  by_cases within : i < e.width
  · rw [encodeBit c word val (by omega), if_neg (by omega)]
  · simp [within]

end Codes

section Frames

variable {d : Dpdcei} {flow stale : Nat} {fd sent back : Fd}

theorem preparedCmd (prepared : d.prepared flow fd = some sent) : sent.cmd = fd.cmd ∧ sent.addr = fd.addr ∧
    (fd.cmd = .process ∨ fd.cmd = .ctxInvalidate ∨ fd.cmd = .nop) := by
  unfold Dpdcei.prepared at prepared
  split at prepared
  · rename_i nop
    cases prepared
    refine ⟨?_, rfl, .inr (.inr nop)⟩
    unfold Fd.cmd
    rw [decodeOther (by decide) (by decide)]
  · rename_i invalidate
    cases prepared
    refine ⟨?_, rfl, .inr (.inl invalidate)⟩
    unfold Fd.cmd
    rw [decodeOther (by decide) (by decide)]
  · rename_i process
    cases prepared
    exact ⟨rfl, rfl, .inl process⟩
  · cases prepared

theorem preparedToken (member : flow ∈ d.flows) (prepared : d.prepared flow fd = some sent) (nop : fd.cmd = .nop) :
    codeNopToken.decode sent.frc = d.key flow := by
  unfold Dpdcei.prepared at prepared
  rw [nop] at prepared
  cases prepared
  exact decodeEncode (by decide) ((d.small flow member).trans (by decide))

theorem preparedSome (d : Dpdcei) (flow : Nat) (sendable : fd.cmd = .process ∨ fd.cmd = .ctxInvalidate ∨ fd.cmd = .nop) :
    ∃ sent, d.prepared flow fd = some sent := by
  unfold Dpdcei.prepared
  rcases sendable with kind | kind | kind <;> rw [kind] <;> exact ⟨_, rfl⟩

theorem preparedApplies (prepared : d.prepared flow fd = some sent) : d.applies sent = d.applies fd := by
  obtain ⟨cmd, _, _⟩ := preparedCmd prepared
  by_cases process : fd.cmd = .process
  · unfold Dpdcei.prepared at prepared
    rw [process] at prepared
    cases prepared
    rfl
  · unfold Dpdcei.applies
    simp [cmd, process]

theorem notCleanup (frc : BitVec 32) : codeScrf.decode frc ≠ cleanupFrc := by
  intro same
  have beyond : decide (28 < 32 ∧ 28 < codeScrf.width) = false := by decide
  have set : cleanupFrc.getLsbD 28 = true := by decide
  have clear : (codeScrf.decode frc).getLsbD 28 = false := by rw [decodeBit, beyond, Bool.false_and]
  rw [same, set] at clear
  cases clear

theorem receivedAnswer (member : flow ∈ d.flows) (prepared : d.prepared flow fd = some sent)
    (apart : sent.addr ≠ d.workaround) (answers : Answers flow sent back) :
    d.received stale back = if sent.cmd = .ctxInvalidate then none else some flow := by
  obtain ⟨addr, cmd, process, token⟩ := answers
  obtain ⟨same, _, kinds⟩ := preparedCmd prepared
  unfold Dpdcei.received
  rw [if_neg (notCleanup _), if_neg (by rwa [addr]), cmd]
  rcases kinds with kind | kind | kind
  · rw [same.trans kind]
    exact congrArg some (process (same.trans kind))
  · rw [same.trans kind]
    rfl
  · rw [same.trans kind]
    have key := token (same.trans kind)
    rw [preparedToken member prepared kind] at key
    simp only [key, d.registered flow member]
    rfl

end Frames

section Runs

variable [Fintype κ] {d : Dpdcei} {s t : State κ} {k : κ} {v : Point} {f : Nat}

def invalidates (x : Nat × Fd) : Bool := decide (x.2.cmd = .ctxInvalidate)

def ofFlow (f : Nat) (x : Nat × Fd) : Bool := decide (x.1 = f)

def State.held (s : State κ) : Int := s.inFlight.length + (s.back.filter invalidates).length

def State.heldOf (s : State κ) (f : Nat) : Int :=
  (s.inFlight.countP (ofFlow f)) + (s.back.filter invalidates).countP (ofFlow f)

def Point.owesTotal : Point → Int
  | .totalCounted _ _ => 1
  | .counted _ _ => 1
  | .sent _ _ err => if err.val = 0 then 0 else 1
  | .receiving _ => 1
  | _ => 0

def Point.owesFlow (f : Nat) : Point → Int
  | .counted g _ => if g = f then 1 else 0
  | .sent g _ err => if g = f ∧ err.val ≠ 0 then 1 else 0
  | .totalUndone g _ _ => if g = f then 1 else 0
  | .receiving g => if g = f then 1 else 0
  | .totalReceived g => if g = f then 1 else 0
  | _ => 0

structure Proper (d : Dpdcei) (flow : Nat) (sent : Fd) : Prop where
  member : flow ∈ d.flows
  apart : sent.addr ≠ d.workaround
  prepared : ∃ fd, d.prepared flow fd = some sent

def Point.Carries (d : Dpdcei) : Point → Prop
  | .begun flow fd => Proper d flow fd
  | .totalCounted flow fd => Proper d flow fd
  | .counted flow fd => Proper d flow fd
  | _ => True

structure Sound (d : Dpdcei) (s : State κ) : Prop where
  total : s.total = s.held + tally Point.owesTotal s.at_
  perFlow : ∀ f, s.perFlow f = s.heldOf f + tally (Point.owesFlow f) s.at_
  frames : ∀ x ∈ s.inFlight, Proper d x.1 x.2
  points : ∀ k, (s.at_ k).Carries d
  calls : ∀ call ∈ s.calls, call.ret = if d.applies call.fd then call.second.val else call.err.val

theorem owesTotalNonneg (p : Point) : 0 ≤ p.owesTotal := by
  cases p with
  | sent flow fd err =>
    unfold Point.owesTotal
    split <;> omega
  | _ => simp [Point.owesTotal]

theorem owesFlowNonneg (f : Nat) (p : Point) : 0 ≤ p.owesFlow f := by
  cases p <;> simp only [Point.owesFlow] <;> first | exact le_rfl | (split <;> omega)

theorem tallyChange (cost : Point → Int) (s : State κ) (k : κ) (v : Point) :
    tally cost (s.moved k v).at_ = tally cost s.at_ - cost (s.at_ k) + cost v := by
  have split := tallySplit cost s.at_ k
  have moved : tally cost (s.moved k v).at_ = tallyOthers cost s.at_ k + cost v := tallyMove
  omega

omit [Fintype κ] in
theorem pointsMoved (points : ∀ j, (s.at_ j).Carries d) (carries : v.Carries d) :
    ∀ j, ((s.moved k v).at_ j).Carries d := by
  intro j
  show (Function.update s.at_ k v j).Carries d
  by_cases same : j = k
  · subst same
    rwa [Function.update_self]
  · rw [Function.update_of_ne same]
    exact points j

theorem soundMoved {u : Point} (sound : Sound d s) (same : t.at_ = s.at_) (point : s.at_ k = u)
    (total : t.total - s.total = t.held - s.held + v.owesTotal - u.owesTotal)
    (perFlow : ∀ f, t.perFlow f - s.perFlow f = t.heldOf f - s.heldOf f + v.owesFlow f - u.owesFlow f)
    (frames : ∀ x ∈ t.inFlight, Proper d x.1 x.2) (carries : v.Carries d)
    (calls : ∀ call ∈ t.calls, call.ret = if d.applies call.fd then call.second.val else call.err.val) :
    Sound d (t.moved k v) := by
  subst point
  have points : ∀ j, (t.at_ j).Carries d := by
    rw [same]
    exact sound.points
  refine ⟨?_, fun f => ?_, frames, pointsMoved points carries, calls⟩
  · have before := sound.total
    have change := tallyChange Point.owesTotal t k v
    rw [same] at change
    show t.total = t.held + _
    omega
  · have before := sound.perFlow f
    have gain := perFlow f
    have change := tallyChange (Point.owesFlow f) t k v
    rw [same] at change
    show t.perFlow f = t.heldOf f + _
    omega

omit [DecidableEq κ] in
theorem startSound (d : Dpdcei) : Sound d (start κ) := by
  refine ⟨?_, fun f => ?_, by simp [start], fun _ => trivial, by simp [start]⟩
  · simp [start, State.held, tally, Ledgers.owed, Point.owesTotal]
  · simp [start, State.heldOf, tally, Ledgers.owed, Point.owesFlow]

omit [DecidableEq κ] [Fintype κ] in
theorem addFlowAt (s : State κ) (flow : Nat) (n : Int) (f : Nat) :
    (s.addFlow flow n).perFlow f = s.perFlow f + if flow = f then n else 0 := by
  unfold State.addFlow
  by_cases same : flow = f
  · subst same
    simp
  · rw [if_neg same]
    simp [Function.update_of_ne (Ne.symm same)]

theorem advanceSound (sound : Sound d s) (stepped : s.advance k = some t) : Sound d t := by
  have carried := sound.points k
  unfold State.advance at stepped
  split at stepped
  · rename_i flow fd point
    cases stepped
    rw [point] at carried
    refine soundMoved sound rfl point ?_ (fun f => ?_) sound.frames carried sound.calls
    · simp only [State.held, Point.owesTotal]
      omega
    · simp only [State.heldOf, Point.owesFlow]
      omega
  · rename_i flow fd point
    cases stepped
    rw [point] at carried
    refine soundMoved sound rfl point ?_ (fun f => ?_) sound.frames carried sound.calls
    · simp only [State.held, State.addFlow, Point.owesTotal]
      omega
    · rw [addFlowAt]
      simp only [State.heldOf, State.addFlow, Point.owesFlow]
      omega
  · rename_i flow fd err point
    split at stepped
    · rename_i refused
      cases stepped
      have nonzero : err.val ≠ 0 := by omega
      refine soundMoved sound rfl point ?_ (fun f => ?_) sound.frames trivial sound.calls
      · simp only [State.held, Point.owesTotal, if_neg nonzero]
        omega
      · simp only [State.heldOf, Point.owesFlow, nonzero, ne_eq, not_false_eq_true, and_true]
        omega
    · rename_i accepted
      cases stepped
      have zero : err.val = 0 := by
        have := err.property
        omega
      refine soundMoved sound rfl point ?_ (fun f => ?_) sound.frames trivial sound.calls
      · simp only [Point.owesTotal, zero, if_true]
        omega
      · simp only [Point.owesFlow, zero, ne_eq, not_true_eq_false, and_false, if_false]
        omega
  · rename_i flow fd err point
    cases stepped
    refine soundMoved sound rfl point ?_ (fun f => ?_) sound.frames trivial sound.calls
    · simp only [State.held, State.addFlow, Point.owesTotal]
      omega
    · rw [addFlowAt]
      simp only [State.heldOf, State.addFlow, Point.owesFlow]
      split <;> omega
  · rename_i flow point
    cases stepped
    refine soundMoved sound rfl point ?_ (fun f => ?_) sound.frames trivial sound.calls
    · simp only [State.held, Point.owesTotal]
      omega
    · simp only [State.heldOf, Point.owesFlow]
      omega
  · rename_i flow point
    cases stepped
    refine soundMoved sound rfl point ?_ (fun f => ?_) sound.frames trivial sound.calls
    · simp only [State.held, State.addFlow, Point.owesTotal]
      omega
    · rw [addFlowAt]
      simp only [State.heldOf, State.addFlow, Point.owesFlow]
      split <;> omega
  · cases stepped

theorem enterSound (sound : Sound d s) {flow : Nat} {fd : Fd} (stepped : s.step d (.enter k flow fd) = some t) :
    Sound d t := by
  simp only [State.step] at stepped
  split at stepped
  · rename_i sent point prepared
    split at stepped
    · rename_i guard
      obtain ⟨member, apart, _⟩ := guard
      cases stepped
      refine soundMoved sound rfl point ?_ (fun f => ?_) sound.frames ⟨member, apart, fd, prepared⟩ sound.calls
      · simp only [State.held, Point.owesTotal]
        omega
      · simp only [State.heldOf, Point.owesFlow]
        omega
    · cases stepped
  · cases stepped

theorem enqueueSound (sound : Sound d s) {err : Outcome} (stepped : s.step d (.enqueue k err) = some t) :
    Sound d t := by
  have carried := sound.points k
  simp only [State.step] at stepped
  split at stepped
  · rename_i flow fd point
    rw [point] at carried
    have proper : Proper d flow fd := carried
    cases stepped
    by_cases zero : err.val = 0
    · refine soundMoved sound rfl point ?_ (fun f => ?_) ?_ trivial sound.calls
      · simp only [State.held, Point.owesTotal, zero, if_true, List.length_append, List.length_singleton]
        omega
      · simp only [State.heldOf, Point.owesFlow, zero, if_true, List.countP_append, List.countP_singleton, ofFlow,
          ne_eq, not_true_eq_false, and_false, if_false, decide_eq_true_eq]
        split <;> omega
      · intro x mem
        simp only [zero, if_true, List.mem_append, List.mem_singleton] at mem
        rcases mem with old | rfl
        · exact sound.frames x old
        · exact proper
    · refine soundMoved sound rfl point ?_ (fun f => ?_) ?_ trivial sound.calls
      · simp only [State.held, Point.owesTotal, if_neg zero]
        omega
      · simp only [State.heldOf, Point.owesFlow, if_neg zero]
        simp only [zero, ne_eq, not_false_eq_true, and_true]
        omega
      · simp only [if_neg zero]
        exact sound.frames
  · cases stepped

theorem finishSound (sound : Sound d s) {second : Outcome} (stepped : s.step d (.finish k second) = some t) :
    Sound d t := by
  simp only [State.step] at stepped
  split at stepped
  · rename_i flow fd err point
    cases stepped
    refine soundMoved sound rfl point ?_ (fun f => ?_) sound.frames trivial ?_
    · simp only [State.held, Point.owesTotal]
      omega
    · simp only [State.heldOf, Point.owesFlow]
      omega
    · intro call mem
      rcases List.mem_append.mp mem with old | new
      · exact sound.calls call old
      · rw [List.mem_singleton.mp new]
  · cases stepped

structure Returned (s t : State κ) (flow : Nat) (sent : Fd) : Prop where
  at_ : t.at_ = s.at_
  counters : t.total = s.total ∧ t.perFlow = s.perFlow
  calls : t.calls = s.calls
  frames : ∀ x ∈ t.inFlight, x ∈ s.inFlight
  held : t.held = s.held - if sent.cmd = .ctxInvalidate then 0 else 1
  heldOf : ∀ f, t.heldOf f = s.heldOf f - if sent.cmd = .ctxInvalidate then 0 else if flow = f then 1 else 0

omit [DecidableEq κ] [Fintype κ] in
theorem returned {i flow : Nat} {sent : Fd} (found : s.inFlight[i]? = some (flow, sent)) :
    Returned s { s with inFlight := s.inFlight.eraseIdx i, back := s.back ++ [(flow, sent)] } flow sent := by
  obtain ⟨inside, item⟩ := List.getElem?_eq_some_iff.mp found
  have perm : ((flow, sent) :: s.inFlight.eraseIdx i).Perm s.inFlight := by
    rw [← item]
    exact List.getElem_cons_eraseIdx_perm inside
  refine ⟨rfl, ⟨rfl, rfl⟩, rfl, fun x mem => perm.subset (List.mem_cons_of_mem _ mem), ?_, fun f => ?_⟩
  · have length := perm.length_eq
    rw [List.length_cons] at length
    by_cases invalid : sent.cmd = .ctxInvalidate
    · simp only [State.held, List.filter_append, List.filter_singleton, List.length_append, invalidates, invalid,
        decide_true, cond_true, List.length_singleton, if_true]
      omega
    · simp only [State.held, List.filter_append, List.filter_singleton, List.length_append, invalidates, invalid,
        decide_false, cond_false, List.length_nil, if_false]
      omega
  · have count := perm.countP_eq (ofFlow f)
    rw [List.countP_cons] at count
    have own : [(flow, sent)].countP (ofFlow f) = if ofFlow f (flow, sent) = true then 1 else 0 :=
      List.countP_singleton
    have mine : ofFlow f (flow, sent) = true ↔ flow = f := decide_eq_true_iff
    simp only [mine] at count own
    by_cases invalid : sent.cmd = .ctxInvalidate
    · simp only [State.heldOf, List.filter_append, List.filter_singleton, List.countP_append, invalidates, invalid,
        decide_true, cond_true, own, if_true]
      omega
    · simp only [State.heldOf, List.filter_append, List.filter_singleton, List.countP_append, invalidates, invalid,
        decide_false, cond_false, List.countP_nil, if_false]
      split <;> split at count <;> omega

theorem receiveSound (sound : Sound d s) {i stale : Nat} {fd : Fd}
    (stepped : s.step d (.receive k i fd stale) = some t) : Sound d t := by
  simp only [State.step] at stepped
  split at stepped
  · rename_i flow sent point found
    have proper := sound.frames _ (List.mem_of_getElem? found)
    obtain ⟨original, prepared⟩ := proper.prepared
    have gone := returned found
    have frames : ∀ x ∈ s.inFlight.eraseIdx i, Proper d x.1 x.2 := fun x mem => sound.frames x (gone.frames x mem)
    split at stepped
    · rename_i answers
      have seen : d.received stale fd = if sent.cmd = .ctxInvalidate then none else some flow :=
        receivedAnswer proper.member prepared proper.apart answers
      rw [seen] at stepped
      by_cases invalid : sent.cmd = .ctxInvalidate
      · rw [if_pos invalid] at stepped
        cases stepped
        have held := gone.held
        rw [if_pos invalid] at held
        refine ⟨?_, fun f => ?_, frames, sound.points, sound.calls⟩
        · rw [held, Int.sub_zero]
          exact sound.total
        · have heldOf := gone.heldOf f
          rw [if_pos invalid] at heldOf
          rw [heldOf, Int.sub_zero]
          exact sound.perFlow f
      · rw [if_neg invalid] at stepped
        cases stepped
        refine soundMoved sound rfl point ?_ (fun f => ?_) frames trivial sound.calls
        · have held := gone.held
          rw [if_neg invalid] at held
          rw [held]
          simp only [Point.owesTotal]
          omega
        · have heldOf := gone.heldOf f
          rw [if_neg invalid] at heldOf
          rw [heldOf]
          simp only [Point.owesFlow]
          split <;> omega
    · cases stepped
  · cases stepped

theorem stepSound (sound : Sound d s) {action : Action κ} (stepped : s.step d action = some t) : Sound d t := by
  cases action with
  | enter k flow fd => exact enterSound sound stepped
  | advance k => exact advanceSound sound stepped
  | enqueue k err => exact enqueueSound sound stepped
  | finish k second => exact finishSound sound stepped
  | receive k i fd stale => exact receiveSound sound stepped

theorem runSound (sound : Sound d s) {actions : List (Action κ)} (ran : s.run d actions = some t) : Sound d t := by
  induction actions generalizing s with
  | nil =>
    cases ran
    exact sound
  | cons action rest later =>
    rw [State.run] at ran
    obtain ⟨m, stepped, rest⟩ := Option.bind_eq_some_iff.mp ran
    exact later (stepSound sound stepped) rest

def whole (k : κ) (flow : Nat) (fd : Fd) (err second : Outcome) : List (Action κ) :=
  [.enter k flow fd, .advance k, .advance k, .enqueue k err] ++
    List.replicate (if err.val < 0 then 2 else 1) (.advance k) ++ [.finish k second]

structure Ready (d : Dpdcei) (s : State κ) (k : κ) (flow : Nat) (fd : Fd) : Prop where
  idle : s.at_ k = .idle
  free : s.lock = none
  member : flow ∈ d.flows
  apart : fd.addr ≠ d.workaround
  sendable : fd.cmd = .process ∨ fd.cmd = .ctxInvalidate ∨ fd.cmd = .nop

structure Counts (d : Dpdcei) (s t : State κ) (flow : Nat) (fd : Fd) (err second : Outcome) : Prop where
  total : t.total = s.total + if err.val = 0 then 1 else 0
  perFlow : ∀ f, t.perFlow f = s.perFlow f + if flow = f ∧ err.val = 0 then 1 else 0
  inFlight : t.inFlight.length = s.inFlight.length + if err.val = 0 then 1 else 0
  calls : ∃ sent, t.calls = s.calls ++ [⟨flow, sent, err, second, if d.applies fd then second.val else err.val⟩]

omit [Fintype κ] in
theorem enterRuns {flow : Nat} {fd sent : Fd} (ready : Ready d s k flow fd) (prepared : d.prepared flow fd = some sent) :
    ∃ lock, s.step d (.enter k flow fd) = some ({ s with lock }.moved k (.begun flow sent)) := by
  have apart : sent.addr ≠ d.workaround := by
    rw [(preparedCmd prepared).2.1]
    exact ready.apart
  have guard : flow ∈ d.flows ∧ sent.addr ≠ d.workaround ∧ ¬ (d.applies sent = true ∧ s.lock.isSome = true) := by
    refine ⟨ready.member, apart, fun both => ?_⟩
    rw [ready.free] at both
    cases both.2
  simp only [State.step, ready.idle, prepared]
  rw [if_pos guard]
  exact ⟨_, rfl⟩

omit [Fintype κ] in
theorem wholeRuns {flow : Nat} {fd : Fd} (err second : Outcome) (ready : Ready d s k flow fd) :
    ∃ t, s.run d (whole k flow fd err second) = some t ∧ Counts d s t flow fd err second := by
  obtain ⟨sent, prepared⟩ := preparedSome d flow ready.sendable
  obtain ⟨lock, entered⟩ := enterRuns ready prepared
  have applies := preparedApplies prepared
  have nonpos := err.property
  have first : ∀ rest, s.run d (.enter k flow fd :: rest) =
      ({ s with lock }.moved k (.begun flow sent)).run d rest := fun rest => by
    rw [State.run, entered, Option.bind_some]
  by_cases zero : err.val = 0
  · have accepted : ¬ err.val < 0 := by omega
    simp only [whole, if_neg accepted, List.replicate, List.cons_append, List.nil_append, first]
    simp only [State.run, State.step, State.advance, State.moved, State.addFlow, Function.update_self,
      if_neg accepted, if_pos zero, Option.bind_some]
    refine ⟨_, rfl, by simp [zero], fun f => ?_, by simp [zero], ⟨sent, by simp [applies]⟩⟩
    have counted := addFlowAt s flow 1 f
    simpa [State.addFlow, zero] using counted
  · have refused : err.val < 0 := by omega
    simp only [whole, if_pos refused, List.replicate, List.cons_append, List.nil_append, first]
    simp only [State.run, State.step, State.advance, State.moved, State.addFlow, Function.update_self,
      if_pos refused, if_neg zero, Option.bind_some]
    refine ⟨_, rfl, by simp [zero], fun f => ?_, by simp [zero], ⟨sent, by simp [applies]⟩⟩
    simp [zero]

omit [DecidableEq κ] in
theorem neverNegative (sound : Sound d s) : 0 ≤ s.total ∧ ∀ f, 0 ≤ s.perFlow f := by
  constructor
  · have owes : 0 ≤ tally Point.owesTotal s.at_ := Ledgers.owedNonneg fun k _ => owesTotalNonneg (s.at_ k)
    rw [sound.total]
    unfold State.held
    omega
  · intro f
    have owes : 0 ≤ tally (Point.owesFlow f) s.at_ := Ledgers.owedNonneg fun k _ => owesFlowNonneg f (s.at_ k)
    rw [sound.perFlow f]
    unfold State.heldOf
    omega

def State.Quiet (s : State κ) : Prop := ∀ k, s.at_ k = .idle

omit [DecidableEq κ] in
theorem quietCounters (sound : Sound d s) (quiet : s.Quiet) : s.total = s.held ∧ ∀ f, s.perFlow f = s.heldOf f := by
  constructor
  · have owes : tally Point.owesTotal s.at_ = 0 := Ledgers.owedZero fun k _ => by rw [quiet k]; rfl
    rw [sound.total, owes, Int.add_zero]
  · intro f
    have owes : tally (Point.owesFlow f) s.at_ = 0 := Ledgers.owedZero fun k _ => by rw [quiet k]; rfl
    rw [sound.perFlow f, owes, Int.add_zero]

omit [DecidableEq κ] [Fintype κ] in
theorem heldExact (s : State κ) : s.held = s.inFlight.length ↔ ∀ x ∈ s.back, x.2.cmd ≠ .ctxInvalidate := by
  have none_ : (s.back.filter invalidates).length = 0 ↔ ∀ x ∈ s.back, x.2.cmd ≠ .ctxInvalidate := by
    rw [List.length_eq_zero_iff, List.filter_eq_nil_iff]
    simp [invalidates]
  rw [← none_]
  unfold State.held
  omega

omit [DecidableEq κ] [Fintype κ] in
theorem heldOfExact (s : State κ) (f : Nat) : s.heldOf f = s.inFlight.countP (ofFlow f) ↔
    ∀ x ∈ s.back, x.1 = f → x.2.cmd ≠ .ctxInvalidate := by
  have none_ : (s.back.filter invalidates).countP (ofFlow f) = 0 ↔
      ∀ x ∈ s.back, x.1 = f → x.2.cmd ≠ .ctxInvalidate := by
    rw [List.countP_eq_zero]
    constructor
    · intro apart x mem same invalid
      exact apart x (List.mem_filter.mpr ⟨mem, decide_eq_true invalid⟩) (decide_eq_true same)
    · intro apart x mem same
      obtain ⟨member, invalid⟩ := List.mem_filter.mp mem
      exact apart x member (of_decide_eq_true same) (of_decide_eq_true invalid)
  rw [← none_]
  unfold State.heldOf
  omega

omit [DecidableEq κ] in
theorem callExact (sound : Sound d s) {call : Call} (mem : call ∈ s.calls) : (call.ret = 0 ↔ call.err.val = 0) ↔
    (d.applies call.fd = true → (call.err.val = 0 ↔ call.second.val = 0)) := by
  rw [sound.calls call mem]
  by_cases applies : d.applies call.fd = true
  · rw [if_pos applies]
    constructor
    · exact fun same _ => same.symm
    · exact fun same => (same applies).symm
  · rw [if_neg applies]
    exact ⟨fun _ applied => absurd applied applies, fun _ => Iff.rfl⟩

end Runs

theorem flightCounted [Fintype κ] (d : Dpdcei) (actions : List (Action κ)) (s : State κ)
    (ran : (start κ).run d actions = some s) :
    (∀ call ∈ s.calls, (call.ret = 0 ↔ call.err.val = 0) ↔
      (d.applies call.fd = true → (call.err.val = 0 ↔ call.second.val = 0))) ∧
    (∀ k flow fd err second, Ready d s k flow fd →
      ∃ t, s.run d (whole k flow fd err second) = some t ∧ Counts d s t flow fd err second) ∧
    (0 ≤ s.total ∧ ∀ f, 0 ≤ s.perFlow f) ∧
    (s.Quiet → (s.total = s.inFlight.length ↔ ∀ x ∈ s.back, x.2.cmd ≠ .ctxInvalidate) ∧
      ∀ f, s.perFlow f = s.inFlight.countP (ofFlow f) ↔ ∀ x ∈ s.back, x.1 = f → x.2.cmd ≠ .ctxInvalidate) := by
  have sound := runSound (startSound d) ran
  refine ⟨fun call mem => callExact sound mem, fun k flow fd err second ready => wholeRuns err second ready,
    neverNegative sound, fun quiet => ?_⟩
  obtain ⟨total, perFlow⟩ := quietCounters sound quiet
  refine ⟨?_, fun f => ?_⟩
  · rw [total]
    exact heldExact s
  · rw [perFlow f]
    exact heldOfExact s f

def oneFlow : Dpdcei where
  version := 0x0AF0020000000000
  engine := .decompression
  workaround := 0x9000
  flows := [0x1000]
  flc := fun _ => 0x2000
  key := fun _ => 1
  table := fun _ => 0x1000
  registered := by decide
  small := by decide

def accepted : Outcome := ⟨0, by decide⟩
def busy : Outcome := ⟨-16, by decide⟩

def stateful : Fd := ⟨0x10000000, 0x3000, 0⟩
def invalidate : Fd := ⟨0x80000000, 0x3000, 0⟩

def outcome (s : State Unit) : Int × Int × Nat × List Int :=
  (s.total, s.perFlow 0x1000, s.inFlight.length, s.calls.map (·.ret))

theorem flightCountedExample : ∃ s, (start Unit).run oneFlow (whole () 0x1000 stateful accepted accepted) = some s ∧
    (∀ call ∈ s.calls, call.ret = 0 ↔ call.err.val = 0) ∧ s.total = 1 := by
  have ran : ((start Unit).run oneFlow (whole () 0x1000 stateful accepted accepted)).map outcome =
      some (1, 1, 1, [0]) := by decide
  have second : ((start Unit).run oneFlow (whole () 0x1000 stateful accepted accepted)).map
      (fun s => s.calls.all fun call => call.err.val = 0 ∧ call.second.val = 0) = some true := by decide
  obtain ⟨s, run, out⟩ := Option.map_eq_some_iff.mp ran
  rw [run] at second
  have agree := List.all_eq_true.mp (Option.some.inj second)
  have counted := flightCounted oneFlow _ s run
  refine ⟨s, run, fun call mem => (counted.1 call mem).mpr fun _ => ?_, congrArg (·.1) out⟩
  obtain ⟨zero, also⟩ := of_decide_eq_true (agree call mem)
  rw [zero, also]

theorem resultOverwritten :
    ((start Unit).run oneFlow (whole () 0x1000 stateful accepted busy)).map outcome = some (1, 1, 1, [-16]) ∧
    ((start Unit).run oneFlow (whole () 0x1000 stateful busy accepted)).map outcome = some (0, 0, 0, [0]) ∧
    ((start Unit).run oneFlow (whole () 0x1000 invalidate accepted accepted ++
      [.receive () 0 ⟨0x80000001, 0x3000, 0x2000⟩ 0])).map outcome = some (1, 1, 0, [0]) :=
  ⟨by decide, by decide, by decide⟩

end Flexbuild.DceFlight
