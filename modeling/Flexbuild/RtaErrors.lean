import Mathlib.Tactic.Common
import Flexbuild.RtaProgram

/-! What the end of a program reports. The last failing call leaves its position, the first one
is reported when nothing was put between them, and an error at the start of the buffer is lost.
The length fits into its header while it is not longer than the field. -/
namespace Flexbuild.Rta

variable {bigEndian : Bool} {era : Era} {p q r : Program} {call : Call} {calls : List Call}

inductive Kind where
  | job | shared
  deriving DecidableEq, Repr

def Kind.command : Kind → Word
  | .job => cmdDescHdr
  | .shared => cmdSharedDescHdr

def Kind.lengthMask : Kind → Word
  | .job => Hdr.descLenMask
  | .shared => Hdr.descLenShrMask

def Call.kind? : Call → Option Kind
  | .shrHeader .. => some .shared
  | .jobHeader .. => some .job
  | _ => none

structure Header where
  kind : Kind
  position : Nat
  word : Word

def runs (bigEndian : Bool) (era : Era) (p : Program) : List Call → Program
  | [] => p
  | call :: rest => runs bigEndian era (call.exec bigEndian era p).2 rest

def failures (bigEndian : Bool) (era : Era) (p : Program) : List Call → List Word
  | [] => []
  | call :: rest =>
    match call.exec bigEndian era p with
    | (.error _, q) => p.currentPc :: failures bigEndian era q rest
    | (.ok _, q) => failures bigEndian era q rest

def firstHeader (bigEndian : Bool) (era : Era) (p : Program) : List Call → Option Header
  | [] => none
  | call :: rest =>
    let q := (call.exec bigEndian era p).2
    match call.kind? with
    | some kind => some ⟨kind, p.currentPc.toNat, q.buffer p.currentPc.toNat⟩
    | none => firstHeader bigEndian era q rest

structure Reported (bigEndian : Bool) (era : Era) (start : Program) (calls : List Call) : Prop where
  negative : (rtaProgramFinalize (runs bigEndian era start calls)).1 < 0 ↔ failures bigEndian era start calls ≠ []
  first : ∀ position ∈ (failures bigEndian era start calls).head?,
    (runs bigEndian era start calls).firstErrorPc = position
  length : failures bigEndian era start calls = [] →
    (rtaProgramFinalize (runs bigEndian era start calls)).1 = (runs bigEndian era start calls).emitted
  header : failures bigEndian era start calls = [] → ∀ h ∈ firstHeader bigEndian era start calls,
    let final := (rtaProgramFinalize (runs bigEndian era start calls)).2.buffer h.position
    (rtaDescLen final).toNat = (runs bigEndian era start calls).emitted ∧
      final &&& ~~~h.kind.lengthMask = h.word &&& ~~~h.kind.lengthMask
  tooLong : ∀ h ∈ firstHeader bigEndian era start calls,
    h.kind.lengthMask.toNat < (runs bigEndian era start calls).emitted →
      (rtaProgramFinalize (runs bigEndian era start calls)).1 < 0

structure Recorded (bigEndian : Bool) (era : Era) (start : Program) (calls : List Call) : Prop where
  sound : failures bigEndian era start calls = [] → (runs bigEndian era start calls).emitted < 2 ^ 31 ∧
    ∀ h ∈ firstHeader bigEndian era start calls, h.position = 0 ∧ (runs bigEndian era start calls).bswap = false ∧
      (runs bigEndian era start calls).emitted ≤ h.kind.lengthMask.toNat
  failed : ∀ position ∈ (failures bigEndian era start calls).head?,
    (failures bigEndian era start calls).getLast? = some position ∧ position ≠ 0

structure Follows (p q : Program) : Prop where
  grown : p.emitted ≤ q.emitted
  counted : q.currentPc = p.currentPc + BitVec.ofNat 32 (q.emitted - p.emitted)
  kept : p.currentPc = BitVec.ofNat 32 p.emitted → q.emitted ≤ 2 ^ 32 → ∀ i < p.emitted, q.buffer i = p.buffer i
  swapped : q.bswap = false → p.bswap = false

theorem followsSelf (p : Program) : Follows p p :=
  ⟨le_rfl, by simp, fun _ _ _ _ => rfl, id⟩

theorem placed (follows : Follows p q) (place : p.currentPc = BitVec.ofNat 32 p.emitted) :
    q.currentPc = BitVec.ofNat 32 q.emitted := by
  rw [follows.counted, place, ← BitVec.ofNat_add, Nat.add_sub_cancel' follows.grown]

theorem Follows.trans (before : Follows p q) (after : Follows q r) : Follows p r := by
  refine ⟨before.grown.trans after.grown, ?_, fun place room i below => ?_, before.swapped ∘ after.swapped⟩
  · have grown := before.grown
    have more := after.grown
    rw [after.counted, before.counted, BitVec.add_assoc, ← BitVec.ofNat_add]
    congr 2
    omega
  · rw [after.kept (placed before place) room i (by have := before.grown; omega),
      before.kept place (by have := after.grown; omega) i below]

structure Writes (p q : Program) : Prop extends Follows p q where
  errors : q.firstErrorPc = p.firstErrorPc
  instruction : q.currentInstruction = p.currentInstruction
  marks : q.shrhdr = p.shrhdr ∧ q.jobhdr = p.jobhdr

theorem Writes.trans (before : Writes p q) (after : Writes q r) : Writes p r :=
  ⟨before.toFollows.trans after.toFollows, after.errors.trans before.errors, after.instruction.trans before.instruction,
    after.marks.1.trans before.marks.1, after.marks.2.trans before.marks.2⟩

theorem writesSelf (p : Program) : Writes p p := ⟨followsSelf p, rfl, rfl, rfl, rfl⟩

theorem writesPut (p : Program) (word : Word) : Writes p (p.put word) := by
  refine ⟨⟨Nat.le_succ _, ?_, fun place room i below => ?_, id⟩, rfl, rfl, rfl, rfl⟩
  · simp [Program.put]
  · have short : p.emitted + 1 ≤ 2 ^ 32 := room
    refine Function.update_of_ne ?_ _ _
    rw [place, BitVec.toNat_ofNat, Nat.mod_eq_of_lt (by omega)]
    omega

theorem writesOut64 (p : Program) (isExt : Bool) (val : BitVec 64) : Writes p (p.out64 bigEndian isExt val) := by
  unfold Program.out64
  dsimp only
  split
  · split <;> exact (writesPut _ _).trans (writesPut _ _)
  · exact writesPut _ _

theorem writesAll (words : List Word) (p : Program) : Writes p (words.foldl Program.put p) := by
  induction words generalizing p with
  | nil => exact writesSelf p
  | cons word rest more => exact (writesPut p word).trans (more _)

theorem writesReserve (p : Program) (room : Nat) : Writes p (p.reserve room) :=
  ⟨⟨Nat.le_add_right _ _, by simp [Program.reserve], fun _ _ _ _ => rfl, id⟩, rfl, rfl, rfl, rfl⟩

theorem followsRecord (words : q.emitted = p.emitted) (pc : q.currentPc = p.currentPc) (buffer : q.buffer = p.buffer)
    (swap : q.bswap = false → p.bswap = false) : Follows p q :=
  ⟨words.ge, by simp [words, pc], fun _ _ i _ => congrFun buffer i, swap⟩

structure Passes (p q : Program) : Prop extends Follows p q where
  errors : q.firstErrorPc = p.firstErrorPc
  instruction : q.currentInstruction = p.currentInstruction ∨ p.emitted < q.emitted
  marked : (p.shrhdr ∨ p.jobhdr) → (q.shrhdr ∨ q.jobhdr)

theorem Writes.passes (writes : Writes p q) : Passes p q :=
  ⟨writes.toFollows, writes.errors, Or.inl writes.instruction, by rw [writes.marks.1, writes.marks.2]; exact id⟩

theorem Passes.trans (before : Passes p q) (after : Passes q r) : Passes p r := by
  refine ⟨before.toFollows.trans after.toFollows, after.errors.trans before.errors, ?_, after.marked ∘ before.marked⟩
  rcases before.instruction with same | grown
  · rcases after.instruction with still | grown
    · exact Or.inl (still.trans same)
    · exact Or.inr (Nat.lt_of_le_of_lt before.grown grown)
  · exact Or.inr (Nat.lt_of_lt_of_le grown after.grown)

theorem passesCounted (p : Program) (word : Word) : Passes p (p.put word).nextInstruction :=
  ⟨(writesPut p word).toFollows.trans (followsRecord rfl rfl rfl id), rfl, Or.inr (Nat.lt_succ_self p.emitted), id⟩

variable {position : Word} {share : ShareType}

theorem shrHeaderPasses {startIdx flags : Word}
    (done : rtaShrHeader era share startIdx flags p = (.ok position, q)) : Passes p q := by
  unfold rtaShrHeader at done
  split at done
  · cases done
  · next opcode _ =>
    have counted : Passes p (p.out32 opcode).nextInstruction := passesCounted p _
    cases done
    split
    · exact counted.trans ⟨followsRecord rfl rfl rfl id, rfl, Or.inl rfl, fun _ => Or.inl rfl⟩
    · exact counted

theorem jobHeaderPasses {startIdx flags extFlags : Word} {shrDesc : BitVec 64}
    (done : rtaJobHeader bigEndian era share startIdx shrDesc flags extFlags p = (.ok position, q)) : Passes p q := by
  unfold rtaJobHeader at done
  split at done
  · cases done
  · next opcode hdrExt _ =>
    have counted : Passes p (p.out32 opcode).nextInstruction := passesCounted p _
    have marked (m : Program) : Passes m { m with jobhdr := true } :=
      ⟨followsRecord rfl rfl rfl id, rfl, Or.inl rfl, fun _ => Or.inr rfl⟩
    dsimp only at done
    generalize (p.out32 opcode).nextInstruction = m at done counted
    have shared : Passes m (if m.currentInstruction = 1 then
        if opcode &&& Hdr.shared ≠ 0 then ({ m with jobhdr := true } : Program).out64 bigEndian m.ps shrDesc
        else { m with jobhdr := true } else m) := by
      split
      · split
        · exact (marked m).trans (writesOut64 _ _ _).passes
        · exact marked m
      · exact (writesSelf m).passes
    cases done
    split
    · exact (counted.trans shared).trans (writesPut _ _).passes
    · exact counted.trans shared

theorem jumpPasses {address : BitVec 64} {jumpType : JumpType} {testType : JumpCond} {testCondition srcDst : Word} (done : rtaJump bigEndian era address jumpType testType testCondition srcDst p = (.ok position, q)) :
    Passes p q := by
  unfold rtaJump at done
  split at done
  · cases done
  · next opcode _ =>
    have counted : Passes p (p.out32 opcode).nextInstruction := passesCounted p _
    cases done
    split
    · exact counted.trans (writesOut64 _ _ _).passes
    · exact counted

theorem commandPasses {outcome : Outcome} (done : command outcome p = (.ok position, q)) : Passes p q := by
  cases outcome with
  | puts opcode follow room =>
    cases done
    exact (passesCounted p opcode).trans ((writesAll follow _).trans (writesReserve _ _)).passes
  | refused counted => cases counted <;> cases done
  | refusedLate opcode follow => cases done

theorem execPasses (done : call.exec bigEndian era p = (.ok position, q)) : Passes p q := by
  cases call with
  | shrHeader => exact shrHeaderPasses done
  | jobHeader => exact jobHeaderPasses done
  | jump => exact jumpPasses done
  | command outcome => exact commandPasses done
  | data words =>
    cases done
    exact (writesAll words p).passes
  | set36bitAddr =>
    cases done
    exact ⟨followsRecord rfl rfl rfl id, rfl, Or.inl rfl, id⟩
  | setBswap =>
    cases done
    exact ⟨followsRecord rfl rfl rfl fun swapped => absurd swapped (by simp), rfl, Or.inl rfl, id⟩

structure Fails (p q : Program) : Prop extends Follows p q where
  errors : q.firstErrorPc = p.currentPc

theorem errFails (p : Program) : Fails p p.err.2 := ⟨followsRecord rfl rfl rfl id, rfl⟩

theorem execFails {e : Unit} (done : call.exec bigEndian era p = (.error e, q)) : Fails p q := by
  cases call with
  | shrHeader share startIdx flags =>
    simp only [Call.exec, rtaShrHeader] at done
    split at done
    · cases done
      exact errFails p
    · cases done
  | jobHeader share startIdx shrDesc flags extFlags =>
    simp only [Call.exec, rtaJobHeader] at done
    split at done
    · cases done
      exact errFails p
    · cases done
  | jump address jumpType testType testCondition srcDst =>
    simp only [Call.exec, rtaJump] at done
    split at done
    · cases done
      exact errFails p
    · cases done
  | command outcome =>
    cases outcome with
    | puts => cases done
    | refused counted =>
      cases counted with
      | false =>
        cases done
        exact ⟨followsRecord rfl rfl rfl id, rfl⟩
      | true =>
        cases done
        exact errFails p
    | refusedLate opcode follow =>
      cases done
      have words := (passesCounted p opcode).toFollows.trans (writesAll follow _).toFollows
      exact ⟨words.trans (followsRecord rfl rfl rfl id), rfl⟩
  | data | set36bitAddr | setBswap => cases done

theorem execFollows (call : Call) (p : Program) : Follows p (call.exec bigEndian era p).2 := by
  match done : call.exec bigEndian era p with
  | (.ok _, q) => exact (execPasses done).toFollows
  | (.error _, q) => exact (execFails done).toFollows

theorem runsFollow (calls : List Call) (p : Program) : Follows p (runs bigEndian era p calls) := by
  induction calls generalizing p with
  | nil => exact followsSelf p
  | cons call rest more => exact (execFollows call p).trans (more _)

theorem runsError (calls : List Call) (p : Program) :
    (runs bigEndian era p calls).firstErrorPc = ((failures bigEndian era p calls).getLast?).getD p.firstErrorPc := by
  induction calls generalizing p with
  | nil => rfl
  | cons call rest later =>
    rw [runs, failures]
    match done : call.exec bigEndian era p with
    | (.ok _, q) =>
      rw [later q, (execPasses done).errors]
    | (.error _, q) =>
      rw [later q, (execFails done).errors, List.getLast?_cons, Option.getD_some]

def headerMask : Word := cmdMask ||| 0xff

theorem orIfKeeps {mask flags flag field opcode base : Word} (keeps : opcode &&& mask = base) (outside : field &&& mask = 0) :
    orIf flags flag field opcode &&& mask = base := by
  unfold orIf
  split
  · rw [BitVec.and_or_distrib_right, keeps, outside]
    exact BitVec.or_zero
  · exact keeps

theorem startIdxOutside (startIdx : Word) : startIdxField startIdx &&& headerMask = 0 := by
  rw [startIdxField, BitVec.and_assoc, show Hdr.startIdxMask &&& headerMask = 0#32 by decide]
  exact BitVec.and_zero

theorem baseKeeps (kind : Kind) (share : ShareType) (startIdx : Word) :
    (kind.command ||| shareField share ||| Hdr.one ||| startIdxField startIdx) &&& headerMask = kind.command := by
  rw [BitVec.and_or_distrib_right, startIdxOutside]
  cases kind <;> cases share <;> decide

theorem shrOpcodeKeeps {startIdx flags opcode : Word}
    (encoded : shrOpcode era share startIdx flags = .ok opcode) : opcode &&& headerMask = cmdSharedDescHdr := by
  unfold shrOpcode at encoded
  split at encoded
  · cases encoded
  · split at encoded
    · cases encoded
    · cases encoded
      have base := baseKeeps .shared share startIdx
      exact orIfKeeps (orIfKeeps (orIfKeeps (orIfKeeps (orIfKeeps base (by decide)) (by decide)) (by decide)) (by decide))
        (by decide)

theorem jobOpcodeKeeps {startIdx flags extFlags opcode hdrExt : Word}
    (encoded : jobOpcode era share startIdx flags extFlags = .ok (opcode, hdrExt)) : opcode &&& headerMask = cmdDescHdr := by
  unfold jobOpcode at encoded
  repeat' split at encoded
  all_goals try cases encoded
  have base := baseKeeps .job share startIdx
  exact orIfKeeps (orIfKeeps (orIfKeeps (orIfKeeps (orIfKeeps (orIfKeeps (orIfKeeps base (by decide)) (by decide))
    (by decide)) (by decide)) (by decide)) (by decide)) (by decide)

structure Heads (kind : Kind) (p q : Program) : Prop where
  grown : p.emitted < q.emitted
  word : p.currentPc = BitVec.ofNat 32 p.emitted → q.emitted ≤ 2 ^ 32 → p.bswap = false →
    q.buffer p.currentPc.toNat &&& headerMask = kind.command
  marked : p.currentInstruction = 0 → (q.shrhdr ∨ q.jobhdr)

variable {kind : Kind}

theorem headsOpcode {opcode : Word} (keeps : opcode &&& headerMask = kind.command)
    (later : Follows (p.out32 opcode).nextInstruction q)
    (marked : p.currentInstruction = 0 → (q.shrhdr ∨ q.jobhdr)) : Heads kind p q := by
  have grown : p.emitted < q.emitted := Nat.lt_of_lt_of_le (Nat.lt_succ_self p.emitted) later.grown
  refine ⟨grown, fun place room plain => ?_, marked⟩
  have at' : p.currentPc.toNat = p.emitted := by
    rw [place, BitVec.toNat_ofNat, Nat.mod_eq_of_lt (by omega)]
  have placed : (p.out32 opcode).nextInstruction.currentPc = BitVec.ofNat 32 (p.out32 opcode).nextInstruction.emitted := by
    change p.currentPc + 1 = BitVec.ofNat 32 (p.emitted + 1)
    rw [place, BitVec.ofNat_add]
    rfl
  rw [at', later.kept placed room p.emitted (Nat.lt_succ_self _)]
  change Function.update p.buffer p.currentPc.toNat (if p.bswap then swab32 opcode else opcode) p.emitted &&& headerMask = _
  rw [at', Function.update_self, plain]
  exact keeps

theorem shrHeaderHeads {startIdx flags : Word}
    (done : rtaShrHeader era share startIdx flags p = (.ok position, q)) : Heads .shared p q := by
  unfold rtaShrHeader at done
  split at done
  · cases done
  · next opcode encoded =>
    have keeps := shrOpcodeKeeps encoded
    cases done
    split
    · exact headsOpcode keeps (followsRecord rfl rfl rfl id) fun _ => Or.inl rfl
    · next later =>
      refine headsOpcode keeps (followsSelf _) fun start => absurd ?_ later
      change p.currentInstruction + 1 = 1
      rw [start]
      rfl

theorem jobHeaderHeads {startIdx flags extFlags : Word} {shrDesc : BitVec 64}
    (done : rtaJobHeader bigEndian era share startIdx shrDesc flags extFlags p = (.ok position, q)) : Heads .job p q := by
  unfold rtaJobHeader at done
  split at done
  · cases done
  · next opcode hdrExt encoded =>
    have keeps := jobOpcodeKeeps encoded
    dsimp only at done
    have start (first : p.currentInstruction = 0) : (p.out32 opcode).nextInstruction.currentInstruction = 1 := by
      change p.currentInstruction + 1 = 1
      rw [first]
      rfl
    have follow (m : Program) : Writes m (if flags &&& Flag.ext ≠ 0 then m.out32 hdrExt else m) := by
      split
      · exact writesPut _ _
      · exact writesSelf _
    cases done
    refine headsOpcode keeps ?_ fun first => ?_
    · refine Follows.trans ?_ (follow _).toFollows
      split
      · have marked : Follows (p.out32 opcode).nextInstruction { (p.out32 opcode).nextInstruction with jobhdr := true } :=
          followsRecord rfl rfl rfl id
        split
        · exact marked.trans (writesOut64 _ _ _).toFollows
        · exact marked
      · exact followsSelf _
    · rw [(follow _).marks.1, (follow _).marks.2, if_pos (start first)]
      refine Or.inr ?_
      split
      · rw [(writesOut64 _ _ _).marks.2]
      · rfl

theorem execHeads (header : call.kind? = some kind)
    (done : call.exec bigEndian era p = (.ok position, q)) : Heads kind p q := by
  cases call with
  | shrHeader =>
    cases header
    exact shrHeaderHeads done
  | jobHeader =>
    cases header
    exact jobHeaderHeads done
  | jump | command | data | set36bitAddr | setBswap => cases header

structure Stands (h : Header) (p done : Program) : Prop where
  above : p.emitted ≤ h.position
  below : h.position < done.emitted
  word : done.buffer h.position = h.word
  command : done.bswap = false → h.word &&& headerMask = h.kind.command
  marked : h.position = 0 → p.currentInstruction = 0 → (done.shrhdr ∨ done.jobhdr)

theorem runsMarked (calls : List Call) (p : Program) (sound : failures bigEndian era p calls = [])
    (marked : p.shrhdr ∨ p.jobhdr) : (runs bigEndian era p calls).shrhdr ∨ (runs bigEndian era p calls).jobhdr := by
  induction calls generalizing p with
  | nil => exact marked
  | cons call rest later =>
    rw [failures] at sound
    rw [runs]
    match done : call.exec bigEndian era p with
    | (.ok _, q) =>
      rw [done] at sound
      exact later q sound ((execPasses done).marked marked)
    | (.error _, q) =>
      rw [done] at sound
      cases sound

theorem headerStands {h : Header} (calls : List Call) (p : Program) (sound : failures bigEndian era p calls = [])
    (place : p.currentPc = BitVec.ofNat 32 p.emitted) (room : (runs bigEndian era p calls).emitted < 2 ^ 32)
    (header : firstHeader bigEndian era p calls = some h) : Stands h p (runs bigEndian era p calls) := by
  induction calls generalizing p with
  | nil => cases header
  | cons call rest later =>
    rw [failures] at sound
    rw [firstHeader] at header
    rw [runs] at room ⊢
    match done : call.exec bigEndian era p with
    | (.error _, q) =>
      rw [done] at sound
      cases sound
    | (.ok position, q) =>
      rw [done] at sound header room
      have passes := execPasses done
      have follow : Follows q (runs bigEndian era q rest) := runsFollow rest q
      have grown := follow.grown
      have placed := placed passes.toFollows place
      dsimp only at header room sound ⊢
      match kind : call.kind? with
      | some k =>
        rw [kind] at header
        cases header
        have heads := execHeads kind done
        have more := heads.grown
        have at' : p.currentPc.toNat = p.emitted := by
          rw [place, BitVec.toNat_ofNat, Nat.mod_eq_of_lt (by omega)]
        refine ⟨at'.ge, by dsimp only; omega, follow.kept placed room.le _ (by dsimp only; omega), fun plain => ?_, fun _ first => ?_⟩
        · exact heads.word place (by omega) (passes.swapped (follow.swapped plain))
        · exact runsMarked rest q sound (heads.marked first)
      | none =>
        rw [kind] at header
        have stands := later q sound placed room header
        have above := stands.above
        have more := passes.grown
        refine ⟨by omega, stands.below, stands.word, stands.command, fun zero first => stands.marked zero ?_⟩
        rcases passes.instruction with same | grew
        · exact same.trans first
        · omega

theorem lengthOutside (n : Fin 128) : BitVec.ofNat 32 n.val &&& (cmdMask ||| ~~~Hdr.descLenMask) = 0#32 ∧
    BitVec.ofNat 32 n.val &&& Hdr.descLenMask = BitVec.ofNat 32 n.val := by
  revert n
  decide

theorem shortLengthOutside (n : Fin 64) : BitVec.ofNat 32 n.val &&& ~~~Hdr.descLenShrMask = 0#32 ∧
    BitVec.ofNat 32 n.val &&& Hdr.descLenShrMask = BitVec.ofNat 32 n.val := by
  revert n
  decide

theorem maskedThrough {word outer inner base : Word} (keeps : word &&& outer = base) (inside : outer &&& inner = inner) :
    word &&& inner = base &&& inner := by
  rw [← keeps, BitVec.and_assoc, inside]

theorem lengthRead {word : Word} {n : Nat} (command : word &&& headerMask = kind.command)
    (fits : n ≤ kind.lengthMask.toNat) :
    rtaDescLen (word ||| BitVec.ofNat 32 n) = BitVec.ofNat 32 n ∧
      (word ||| BitVec.ofNat 32 n) &&& ~~~kind.lengthMask = word &&& ~~~kind.lengthMask := by
  have cmd : word &&& cmdMask = kind.command &&& cmdMask := maskedThrough command (by decide)
  cases kind with
  | job =>
    have clear : word &&& Hdr.descLenMask = 0#32 := maskedThrough command (by decide)
    obtain ⟨outside, inside⟩ := lengthOutside ⟨n, Nat.lt_succ_of_le fits⟩
    have high : BitVec.ofNat 32 n &&& cmdMask = 0#32 := (maskedThrough outside (by decide)).trans BitVec.zero_and
    have other : BitVec.ofNat 32 n &&& ~~~Hdr.descLenMask = 0#32 :=
      (maskedThrough outside (by decide)).trans BitVec.zero_and
    constructor
    · rw [rtaDescLen, BitVec.and_or_distrib_right, high, BitVec.or_zero, cmd, if_pos (by decide),
        BitVec.and_or_distrib_right, clear, BitVec.zero_or, inside]
    · rw [Kind.lengthMask, BitVec.and_or_distrib_right, other, BitVec.or_zero]
  | shared =>
    have clear : word &&& Hdr.descLenShrMask = 0#32 := maskedThrough command (by decide)
    obtain ⟨other, inside⟩ := shortLengthOutside ⟨n, Nat.lt_succ_of_le fits⟩
    have high : BitVec.ofNat 32 n &&& cmdMask = 0#32 := (maskedThrough other (by decide)).trans BitVec.zero_and
    constructor
    · rw [rtaDescLen, BitVec.and_or_distrib_right, high, BitVec.or_zero, cmd, if_neg (by decide),
        BitVec.and_or_distrib_right, clear, BitVec.zero_or, inside]
    · rw [Kind.lengthMask, BitVec.and_or_distrib_right, other, BitVec.or_zero]

theorem lengthUnset {word : Word} (command : word &&& headerMask = kind.command) : rtaDescLen word = 0 := by
  have job : word &&& Hdr.descLenMask = kind.command &&& Hdr.descLenMask := maskedThrough command (by decide)
  have shared : word &&& Hdr.descLenShrMask = kind.command &&& Hdr.descLenShrMask := maskedThrough command (by decide)
  rw [rtaDescLen, job, shared]
  cases kind <;> split <;> decide

theorem finalizeError (error : p.firstErrorPc ≠ 0) : (rtaProgramFinalize p).1 = -einval := by
  rw [rtaProgramFinalize, if_pos error]

theorem finalizeCount (sound : p.firstErrorPc = 0) (place : p.currentPc = BitVec.ofNat 32 p.emitted)
    (room : p.emitted < 2 ^ 31) : (rtaProgramFinalize p).1 = p.emitted := by
  rw [rtaProgramFinalize, if_neg (not_not_intro sound)]
  change p.currentPc.toInt = p.emitted
  have count : p.currentPc.toNat = p.emitted := by rw [place, BitVec.toNat_ofNat, Nat.mod_eq_of_lt (by omega)]
  rw [BitVec.toInt_eq_toNat_of_lt (by omega), count]

theorem finalizeOther (i : Nat) (other : i ≠ 0) : (rtaProgramFinalize p).2.buffer i = p.buffer i := by
  rw [rtaProgramFinalize]
  split
  · rfl
  · dsimp only
    split
    · exact Function.update_of_ne other _ _
    · rfl

theorem finalizeHeader (sound : p.firstErrorPc = 0) (marked : p.shrhdr ∨ p.jobhdr) (plain : p.bswap = false) :
    (rtaProgramFinalize p).2.buffer 0 = p.buffer 0 ||| p.currentPc := by
  rw [rtaProgramFinalize, if_neg (not_not_intro sound)]
  dsimp only
  rw [if_pos marked, plain]
  exact Function.update_self (f := p.buffer) 0 _

section Program

variable {buffer : Nat → Word} {offset : Word}

theorem startPlaced (calls : List Call) : (runs bigEndian era (rtaProgramCntxtInit buffer offset) calls).currentPc =
    BitVec.ofNat 32 (runs bigEndian era (rtaProgramCntxtInit buffer offset) calls).emitted :=
  placed (runsFollow calls _) rfl

theorem soundClear (sound : failures bigEndian era (rtaProgramCntxtInit buffer offset) calls = []) :
    (runs bigEndian era (rtaProgramCntxtInit buffer offset) calls).firstErrorPc = 0 := by
  rw [runsError, sound]
  rfl

theorem recordedReported (recorded : Recorded bigEndian era (rtaProgramCntxtInit buffer offset) calls) :
    Reported bigEndian era (rtaProgramCntxtInit buffer offset) calls := by
  match kind : failures bigEndian era (rtaProgramCntxtInit buffer offset) calls with
  | [] =>
    obtain ⟨room, headed⟩ := recorded.sound kind
    have clear := soundClear kind
    have place := @startPlaced bigEndian era buffer offset calls
    have count := finalizeCount clear place room
    refine ⟨⟨fun negative => ?_, fun failed => absurd kind failed⟩, fun position first => ?_, fun _ => count,
      fun _ h header => ?_, fun h header long => ?_⟩
    · omega
    · rw [kind] at first
      cases first
    · obtain ⟨zero, plain, fits⟩ := headed h header
      have stands := headerStands calls _ kind rfl (by omega) header
      obtain ⟨read, rest⟩ := lengthRead (stands.command plain) fits
      have final := finalizeHeader clear (stands.marked zero rfl) plain
      rw [← zero, stands.word, place, zero] at final
      dsimp only
      rw [zero, final]
      refine ⟨?_, rest⟩
      rw [read, BitVec.toNat_ofNat, Nat.mod_eq_of_lt (by omega)]
    · have fits := (headed h header).2.2
      omega
  | position :: rest =>
    have front : position ∈ (failures bigEndian era (rtaProgramCntxtInit buffer offset) calls).head? := by rw [kind]; rfl
    obtain ⟨last, nonzero⟩ := recorded.failed position front
    have error : (runs bigEndian era (rtaProgramCntxtInit buffer offset) calls).firstErrorPc = position := by
      rw [runsError, last]
      rfl
    have result := finalizeError (error ▸ nonzero)
    have failed : failures bigEndian era (rtaProgramCntxtInit buffer offset) calls ≠ [] := by rw [kind]; exact List.cons_ne_nil _ _
    have negative : (rtaProgramFinalize (runs bigEndian era (rtaProgramCntxtInit buffer offset) calls)).1 < 0 := by
      rw [result]
      decide
    refine ⟨⟨fun _ => failed, fun _ => negative⟩, fun found first => ?_, fun sound => absurd sound failed,
      fun sound => absurd sound failed, fun _ _ _ => negative⟩
    rw [kind] at first
    cases first
    exact error

theorem reportedRecorded (room : (runs bigEndian era (rtaProgramCntxtInit buffer offset) calls).emitted < 2 ^ 31)
    (plain : failures bigEndian era (rtaProgramCntxtInit buffer offset) calls = [] →
      (runs bigEndian era (rtaProgramCntxtInit buffer offset) calls).bswap = false)
    (reported : Reported bigEndian era (rtaProgramCntxtInit buffer offset) calls) :
    Recorded bigEndian era (rtaProgramCntxtInit buffer offset) calls := by
  have place := @startPlaced bigEndian era buffer offset calls
  refine ⟨fun sound => ⟨room, fun h header => ?_⟩, fun position front => ?_⟩
  · have stands := headerStands calls _ sound rfl (by omega) header
    have nonempty := stands.below
    refine ⟨?_, plain sound, ?_⟩
    · by_contra other
      obtain ⟨read, -⟩ := reported.header sound h header
      rw [finalizeOther _ other, stands.word, lengthUnset (stands.command (plain sound))] at read
      exact absurd read (Nat.ne_of_lt (Nat.lt_of_le_of_lt (Nat.zero_le _) nonempty))
    · by_contra long
      have refused := reported.tooLong h header (by omega)
      rw [reported.length sound] at refused
      omega
  · have failed : failures bigEndian era (rtaProgramCntxtInit buffer offset) calls ≠ [] := by
      rintro sound
      rw [sound] at front
      cases front
    obtain ⟨last, isLast⟩ := Option.ne_none_iff_exists'.1 (mt List.getLast?_eq_none_iff.1 failed)
    have error : (runs bigEndian era (rtaProgramCntxtInit buffer offset) calls).firstErrorPc = last := by
      rw [runsError, isLast]
      rfl
    have same : last = position := error.symm.trans (reported.first position front)
    subst same
    refine ⟨isLast, fun zero => ?_⟩
    have negative := reported.negative.2 failed
    rw [finalizeCount (error.trans zero) place room] at negative
    omega

theorem finalizeReports (bigEndian : Bool) (era : Era) (buffer : Nat → Word) (offset : Word) (calls : List Call) :
    (Recorded bigEndian era (rtaProgramCntxtInit buffer offset) calls →
      Reported bigEndian era (rtaProgramCntxtInit buffer offset) calls) ∧
    ((runs bigEndian era (rtaProgramCntxtInit buffer offset) calls).emitted < 2 ^ 31 →
      (failures bigEndian era (rtaProgramCntxtInit buffer offset) calls = [] →
        (runs bigEndian era (rtaProgramCntxtInit buffer offset) calls).bswap = false) →
      Reported bigEndian era (rtaProgramCntxtInit buffer offset) calls →
      Recorded bigEndian era (rtaProgramCntxtInit buffer offset) calls) :=
  ⟨recordedReported, reportedRecorded⟩

end Program

theorem finalizeReportsExample :
    Reported false 7 (rtaProgramCntxtInit (fun _ => 0) 0)
      [.jobHeader .always 3 0x1000 Flag.shr 0, .jump 1 .haltStatus .allTrue 0 0] := by
  refine (finalizeReports false 7 (fun _ => 0) 0 _).1 ⟨fun _ => ⟨by decide, fun h header => ?_⟩, fun position front => ?_⟩
  · cases header
    decide
  · cases front

theorem errorLost :
    ¬ Reported false 7 (rtaProgramCntxtInit (fun _ => 0) 0)
      [.shrHeader .defer 1 0, .jump 1 .haltStatus .allTrue 0 0] := by
  intro reported
  exact absurd (reported.negative.2 (by decide)) (by decide)

end Flexbuild.Rta
