import Mathlib.Tactic.Common
import Flexbuild.RtaWalker

/-! What a command puts into the buffer. It begins at the current position with its command word,
and later commands leave it alone. -/
namespace Flexbuild.Rta
open SelfDelimiting

variable {machine : Machine} {era : Era} {p q r : Program} {bigEndian : Bool} {m n : Nat} {opcode position : Word}
  {command : Command} {commands : List Command}

def readWord (p : Program) (i : Nat) : Word := if p.bswap then swab32 (p.buffer i) else p.buffer i

theorem swabSwab (w : Word) : swab32 (swab32 w) = w := by
  simp only [swab32]
  ext i bound
  simp only [BitVec.getElem_append, BitVec.getElem_extractLsb', BitVec.getLsbD_append, BitVec.getLsbD_extractLsb']
  grind

structure Appends (n : Nat) (p q : Program) : Prop where
  grown : q.emitted = p.emitted + n
  counted : q.currentPc = p.currentPc + BitVec.ofNat 32 n
  kept : p.currentPc = BitVec.ofNat 32 p.emitted → q.emitted < 2 ^ 32 → ∀ i < p.emitted, q.buffer i = p.buffer i
  pointers : q.ps = p.ps
  swapped : q.bswap = p.bswap

theorem Appends.placed (appends : Appends n p q) (place : p.currentPc = BitVec.ofNat 32 p.emitted) :
    q.currentPc = BitVec.ofNat 32 q.emitted := by
  rw [appends.counted, place, appends.grown, BitVec.ofNat_add]

theorem Appends.trans (before : Appends m p q) (after : Appends n q r) : Appends (m + n) p r := by
  refine ⟨?_, ?_, fun place room i below => ?_, after.pointers.trans before.pointers, after.swapped.trans before.swapped⟩
  · rw [after.grown, before.grown, Nat.add_assoc]
  · rw [after.counted, before.counted, BitVec.ofNat_add, BitVec.add_assoc]
  · have more := after.grown
    have grown := before.grown
    rw [after.kept (before.placed place) room i (by omega), before.kept place (by omega) i below]

theorem appendsRecord (words : q.emitted = p.emitted) (pc : q.currentPc = p.currentPc) (buffer : q.buffer = p.buffer)
    (pointers : q.ps = p.ps) (swapped : q.bswap = p.bswap) : Appends 0 p q :=
  ⟨words, pc.trans (BitVec.add_zero _).symm, fun _ _ i _ => congrFun buffer i, pointers, swapped⟩

theorem appendsNone (p : Program) : Appends 0 p p := appendsRecord rfl rfl rfl rfl rfl

theorem appendsIf {condition : Prop} [Decidable condition] (appends : Appends n p q) :
    Appends (if condition then n else 0) p (if condition then q else p) := by
  split
  · exact appends
  · exact appendsNone p

theorem appendsNext (p : Program) : Appends 0 p p.nextInstruction := appendsRecord rfl rfl rfl rfl rfl

theorem appendsPut (p : Program) (word : Word) : Appends 1 p (p.put word) := by
  refine ⟨rfl, rfl, fun place room i below => ?_, rfl, rfl⟩
  have short : p.emitted + 1 < 2 ^ 32 := room
  refine Function.update_of_ne ?_ _ _
  rw [place, BitVec.toNat_ofNat, Nat.mod_eq_of_lt (by omega)]
  omega

theorem appendsOut32 (p : Program) (word : Word) : Appends 1 p (p.out32 word) := appendsPut p _

theorem appendsOut64 (p : Program) (isExt : Bool) (val : BitVec 64) :
    Appends (pointerWords isExt) p (p.out64 bigEndian isExt val) := by
  unfold Program.out64
  dsimp only
  cases isExt with
  | true =>
    rw [if_pos rfl]
    split <;> exact (appendsPut _ _).trans (appendsPut _ _)
  | false => exact appendsPut _ _

theorem appendsReserve (p : Program) (words : Nat) : Appends words p (p.reserve words) :=
  ⟨rfl, rfl, fun _ _ _ _ => rfl, rfl, rfl⟩

theorem appendsCopyIn (p : Program) (bytes : Nat → BitVec 8) (length : Nat) :
    Appends 0 p (p.copyIn bigEndian bytes length) := by
  refine ⟨rfl, (BitVec.add_zero _).symm, fun place room i below => ?_, rfl, rfl⟩
  have short : p.emitted < 2 ^ 32 := room
  refine if_neg ?_
  rw [place, BitVec.toNat_ofNat, Nat.mod_eq_of_lt short]
  omega

theorem appendsInline (p : Program) (data : BitVec 64) (flags length : Word) :
    Appends (inlineWords flags length) p (p.inlineData machine data flags length) := by
  unfold Program.inlineData inlineWords
  split
  · exact appendsOut64 _ _ _
  · dsimp only
    have reserved {s : Program} (copied : Appends 0 p s) :
        Appends ((length + 3) / 4).toNat p (s.reserve ((length + 3) / 4).toNat) := by
      have both := copied.trans (appendsReserve s ((length + 3) / 4).toNat)
      rwa [Nat.zero_add] at both
    refine reserved ?_
    split
    · exact appendsCopyIn _ _ _
    · split
      · exact appendsCopyIn _ _ _
      · exact appendsNone _

structure Emits (opcode : Word) (n : Nat) (p q : Program) : Prop extends Appends (1 + n) p q where
  word : p.currentPc = BitVec.ofNat 32 p.emitted → q.emitted < 2 ^ 32 → readWord q p.emitted = opcode

theorem emits (appends : Appends n (p.out32 opcode).nextInstruction q) : Emits opcode n p q := by
  have first : Appends 1 p (p.out32 opcode).nextInstruction := (appendsOut32 p opcode).trans (appendsNext _)
  refine ⟨first.trans appends, fun place room => ?_⟩
  have grown := appends.grown
  have one := first.grown
  have kept := appends.kept (first.placed place) room p.emitted (by omega)
  have written : (p.out32 opcode).nextInstruction.buffer p.emitted = if p.bswap then swab32 opcode else opcode := by
    have at' : p.currentPc.toNat = p.emitted := by rw [place, BitVec.toNat_ofNat, Nat.mod_eq_of_lt (by omega)]
    rw [← at']
    exact Function.update_self _ _ _
  rw [readWord, kept, written, appends.swapped]
  change (if p.bswap then _ else _) = _
  cases p.bswap with
  | false => rfl
  | true => exact swabSwab opcode

theorem loadEmits {src dst : BitVec 64} {offset length flags : Word}
    (done : rtaLoad machine era src dst offset length flags p = (.ok position, q)) :
    ∃ opcode, loadOpcode era dst offset length flags = .ok opcode ∧
      Emits opcode ((Command.load src dst offset length flags).follow p.ps opcode) p q := by
  unfold rtaLoad at done
  split at done
  · cases done
  · next opcode encoded =>
    cases done
    refine ⟨opcode, encoded, emits ?_⟩
    dsimp only [Command.follow]
    split
    · exact appendsNone _
    · split
      · exact appendsInline _ _ _ _
      · exact appendsIf (appendsOut64 _ _ _)

variable {length flags : Word}

theorem storeEmits {src dst : BitVec 64} {offset : BitVec 16}
    (done : rtaStore machine era src offset dst length flags p = (.ok position, q)) :
    ∃ opcode, storeOpcode era src offset length flags = .ok opcode ∧
      Emits opcode ((Command.store src offset dst length flags).follow p.ps opcode) p q := by
  unfold rtaStore at done
  split at done
  · cases done
  · next opcode encoded =>
    cases done
    refine ⟨opcode, encoded, emits ?_⟩
    dsimp only [Command.follow]
    split
    · exact appendsNone _
    · have pointer (s : Program) : Appends (if flags &&& Flag.seq = 0 then pointerWords s.ps else 0) s
          (if flags &&& Flag.seq = 0 then s.out64 machine.bigEndian s.ps dst else s) := appendsIf (appendsOut64 _ _ _)
      have data (s : Program) : Appends (if flags &&& Flag.immed ≠ 0 then inlineWords flags length else 0) s
          (if flags &&& Flag.immed ≠ 0 then s.inlineData machine src flags length else s) :=
        appendsIf (appendsInline _ _ _ _)
      exact (pointer (p.out32 opcode).nextInstruction).trans (data _)

theorem keyEmits {keyDst encryptFlags : Word} {src : BitVec 64}
    (done : rtaKey machine era keyDst encryptFlags src length flags p = (.ok position, q)) :
    ∃ opcode, keyOpcode era keyDst encryptFlags length flags = .ok opcode ∧
      Emits opcode ((Command.key keyDst encryptFlags src length flags).follow p.ps opcode) p q := by
  unfold rtaKey at done
  split at done
  · cases done
  · next opcode encoded =>
    cases done
    refine ⟨opcode, encoded, emits ?_⟩
    dsimp only [Command.follow]
    split
    · exact appendsInline _ _ _ _
    · exact appendsOut64 _ _ _

theorem appendsBit (words flag val : Word) (p : Program) :
    Appends (bitWords words flag) p (if words &&& flag ≠ 0 then p.out32 val else p) :=
  appendsIf (appendsOut32 p val)

theorem fifoLoadEmits {src : Word} {loc : BitVec 64}
    (done : rtaFifoLoad machine era src loc length flags p = (.ok position, q)) :
    ∃ opcode, fifoLoadOpcode era src length flags = .ok opcode ∧
      Emits opcode ((Command.fifoLoad src loc length flags).follow p.ps opcode) p q := by
  unfold rtaFifoLoad at done
  split at done
  · cases done
  · next opcode encoded =>
    cases done
    refine ⟨opcode, encoded, emits (Appends.trans ?_ (appendsBit _ _ _ _))⟩
    split
    · exact appendsInline _ _ _ _
    · exact appendsIf (appendsOut64 _ _ _)

theorem fifoStoreEmits {src encryptFlags : Word} {dst : BitVec 64}
    (done : rtaFifoStore machine era src encryptFlags dst length flags p = (.ok position, q)) :
    ∃ opcode, fifoStoreOpcode era src encryptFlags dst length flags = .ok opcode ∧
      Emits opcode ((Command.fifoStore src encryptFlags dst length flags).follow p.ps opcode) p q := by
  unfold rtaFifoStore at done
  split at done
  · cases done
  · next opcode encoded =>
    cases done
    exact ⟨opcode, encoded, emits (Appends.trans (appendsIf (appendsOut64 _ _ _)) (appendsBit _ _ _ _))⟩

theorem seqInPtrEmits {src : BitVec 64} (done : rtaSeqInPtr bigEndian era src length flags p = (.ok position, q)) :
    ∃ opcode, seqInPtrOpcode era src length flags = .ok opcode ∧
      Emits opcode ((Command.seqInPtr src length flags).follow p.ps opcode) p q := by
  unfold rtaSeqInPtr at done
  split at done
  · cases done
  · next opcode encoded =>
    cases done
    exact ⟨opcode, encoded, emits (Appends.trans (appendsIf (appendsOut64 _ _ _)) (appendsBit _ _ _ _))⟩

theorem seqOutPtrEmits {dst : BitVec 64}
    (done : rtaSeqOutPtr bigEndian era dst length flags p = (.ok position, q)) :
    ∃ opcode, seqOutPtrOpcode era dst length flags = .ok opcode ∧
      Emits opcode ((Command.seqOutPtr dst length flags).follow p.ps opcode) p q := by
  unfold rtaSeqOutPtr at done
  split at done
  · cases done
  · next opcode encoded =>
    cases done
    exact ⟨opcode, encoded, emits (Appends.trans (appendsIf (appendsOut64 _ _ _)) (appendsBit _ _ _ _))⟩

theorem mathEmits {operand1 : BitVec 64} {op : Word} {operand2 : BitVec 64} {result : Word} {length : Int} {options : Word}
    (done : rtaMath bigEndian era operand1 op operand2 result length options p = (.ok position, q)) :
    ∃ opcode, mathOpcode era operand1 op operand2 result length options = .ok opcode ∧
      Emits opcode ((Command.math operand1 op operand2 result length options).follow p.ps opcode) p q := by
  unfold rtaMath at done
  split at done
  · cases done
  · next opcode encoded =>
    cases done
    refine ⟨opcode, encoded, emits ?_⟩
    dsimp only [Command.follow]
    by_cases first : options &&& Flag.immed ≠ 0 ∧ options &&& Flag.immed2 = 0
    · rw [if_pos first, if_pos (Or.inl first)]
      exact appendsOut64 _ _ _
    · by_cases second : options &&& Flag.immed2 ≠ 0 ∧ options &&& Flag.immed = 0
      · rw [if_neg first, if_pos second, if_pos (Or.inr second)]
        exact appendsOut64 _ _ _
      · rw [if_neg first, if_neg second, if_neg (not_or_intro first second)]
        exact appendsIf ((appendsOut32 _ _).trans (appendsOut32 _ _))

theorem jumpEmits {address : BitVec 64} {jumpType : JumpType} {testType : JumpCond} {testCondition srcDst : Word}
    (done : rtaJump bigEndian era address jumpType testType testCondition srcDst p = (.ok position, q)) :
    ∃ opcode, jumpOpcode era address jumpType testType testCondition srcDst = .ok opcode ∧
      Emits opcode ((Command.jump address jumpType testType testCondition srcDst).follow p.ps opcode) p q := by
  unfold rtaJump at done
  split at done
  · cases done
  · next opcode encoded =>
    cases done
    exact ⟨opcode, encoded, emits (appendsIf (appendsOut64 _ _ _))⟩

theorem shrHeaderEmits {share : ShareType} {startIdx flags : Word}
    (done : rtaShrHeader era share startIdx flags p = (.ok position, q)) :
    ∃ opcode, shrOpcode era share startIdx flags = .ok opcode ∧
      Emits opcode ((Command.shrHeader share startIdx flags).follow p.ps opcode) p q := by
  unfold rtaShrHeader at done
  split at done
  · cases done
  · next opcode encoded =>
    cases done
    refine ⟨opcode, encoded, emits ?_⟩
    split
    · exact appendsRecord rfl rfl rfl rfl rfl
    · exact appendsNone _

theorem jobHeaderEmits {share : ShareType} {startIdx flags extFlags : Word} {shrDesc : BitVec 64}
    (first : p.currentInstruction = 0)
    (done : rtaJobHeader bigEndian era share startIdx shrDesc flags extFlags p = (.ok position, q)) :
    ∃ opcode hdrExt, jobOpcode era share startIdx flags extFlags = .ok (opcode, hdrExt) ∧
      Emits opcode ((Command.jobHeader share startIdx shrDesc flags extFlags).follow p.ps opcode) p q := by
  unfold rtaJobHeader at done
  split at done
  · cases done
  · next opcode hdrExt encoded =>
    have start : (p.out32 opcode).nextInstruction.currentInstruction = 1 := by
      change p.currentInstruction + 1 = 1
      rw [first]
      rfl
    dsimp only at done
    rw [if_pos start] at done
    cases done
    refine ⟨opcode, hdrExt, encoded, emits (Appends.trans ?_ (appendsBit _ _ _ _))⟩
    have marked : Appends 0 (p.out32 opcode).nextInstruction
        { (p.out32 opcode).nextInstruction with jobhdr := true } := appendsRecord rfl rfl rfl rfl rfl
    split
    · rw [← Nat.zero_add (pointerWords p.ps)]
      exact marked.trans (appendsOut64 _ _ _)
    · exact marked

theorem execEmits (first : command.isHeader → p.currentInstruction = 0)
    (done : command.exec machine era p = (.ok position, q)) :
    ∃ opcode, command.opcode era = .ok opcode ∧ Emits opcode (command.follow p.ps opcode) p q := by
  cases command with
  | shrHeader => exact shrHeaderEmits done
  | jobHeader share startIdx shrDesc flags extFlags =>
    obtain ⟨opcode, hdrExt, encoded, emits⟩ := jobHeaderEmits (first rfl) done
    exact ⟨opcode, by rw [Command.opcode, encoded]; rfl, emits⟩
  | load => exact loadEmits done
  | store => exact storeEmits done
  | key => exact keyEmits done
  | fifoLoad => exact fifoLoadEmits done
  | fifoStore => exact fifoStoreEmits done
  | math => exact mathEmits done
  | jump => exact jumpEmits done
  | seqInPtr => exact seqInPtrEmits done
  | seqOutPtr => exact seqOutPtrEmits done

theorem execPosition (done : command.exec machine era p = (.ok position, q)) : position = p.currentPc := by
  cases command with
  | shrHeader | jobHeader | load | store | key | fifoLoad | fifoStore | math | jump | seqInPtr | seqOutPtr =>
    simp only [Command.exec, rtaShrHeader, rtaJobHeader, rtaLoad, rtaStore, rtaKey, rtaFifoLoad, rtaFifoStore, rtaMath,
      rtaJump, rtaSeqInPtr, rtaSeqOutPtr] at done
    split at done
    · cases done
    · cases done
      rfl

theorem execRefused {e : Unit} (done : command.exec machine era p = (.error e, q)) :
    command.opcode era = .error () ∧ Appends 0 p q := by
  have refused : Appends 0 p p.err.2 := appendsRecord rfl rfl rfl rfl rfl
  cases command with
  | jobHeader share startIdx shrDesc flags extFlags =>
    simp only [Command.exec, rtaJobHeader] at done
    split at done
    · next encoded =>
      cases done
      exact ⟨by rw [Command.opcode, encoded]; rfl, refused⟩
    · cases done
  | shrHeader | load | store | key | fifoLoad | fifoStore | math | jump | seqInPtr | seqOutPtr =>
    simp only [Command.exec, rtaShrHeader, rtaLoad, rtaStore, rtaKey, rtaFifoLoad, rtaFifoStore, rtaMath, rtaJump,
      rtaSeqInPtr, rtaSeqOutPtr] at done
    split at done
    · next encoded =>
      cases done
      exact ⟨encoded, refused⟩
    · cases done

def build (machine : Machine) (era : Era) (p : Program) : List Command → Program
  | [] => p
  | command :: rest => build machine era (command.exec machine era p).2 rest

def positions (machine : Machine) (era : Era) (p : Program) : List Command → List Nat
  | [] => []
  | command :: rest =>
    match command.exec machine era p with
    | (.ok position, q) => position.toNat :: positions machine era q rest
    | (.error _, q) => positions machine era q rest

def followed (era : Era) (ps : Bool) : List Command → List Nat
  | [] => []
  | command :: rest =>
    match command.opcode era with
    | .ok opcode => command.follow ps opcode :: followed era ps rest
    | .error _ => followed era ps rest

structure HeaderFirst (p : Program) (commands : List Command) : Prop where
  head : ∀ command ∈ commands.head?, command.isHeader → p.currentInstruction = 0
  tail : ∀ command ∈ commands.tail, command.isHeader = false

theorem HeaderFirst.rest (headers : HeaderFirst p (command :: commands)) (q : Program) : HeaderFirst q commands := by
  refine ⟨fun next front header => ?_, fun next member => headers.tail next (List.mem_of_mem_tail member)⟩
  have plain := headers.tail next (List.mem_of_mem_head? front)
  rw [plain] at header
  cases header

theorem buildAppends (commands : List Command) (p : Program) (headers : HeaderFirst p commands) :
    ∃ n, Appends n p (build machine era p commands) := by
  induction commands generalizing p with
  | nil => exact ⟨0, appendsNone p⟩
  | cons command rest more =>
    rw [build]
    match done : command.exec machine era p with
    | (.ok position, q) =>
      obtain ⟨opcode, -, emits⟩ := execEmits (headers.head command rfl) done
      obtain ⟨n, later⟩ := more q (headers.rest q)
      exact ⟨_, emits.toAppends.trans later⟩
    | (.error e, q) =>
      obtain ⟨n, later⟩ := more q (headers.rest q)
      exact ⟨_, (execRefused done).2.trans later⟩

theorem buildStarts (commands : List Command) (p : Program) (headers : HeaderFirst p commands)
    (place : p.currentPc = BitVec.ofNat 32 p.emitted) (room : (build machine era p commands).emitted < 2 ^ 32) :
    positions machine era p commands = starts p.emitted (followed era p.ps commands) ∧
      (build machine era p commands).emitted = finish p.emitted (followed era p.ps commands) := by
  induction commands generalizing p with
  | nil => exact ⟨rfl, rfl⟩
  | cons command rest more =>
    rw [build] at room ⊢
    rw [positions, followed]
    match done : command.exec machine era p with
    | (.ok position, q) =>
      rw [done] at room
      dsimp only at room
      obtain ⟨opcode, encoded, emits⟩ := execEmits (headers.head command rfl) done
      obtain ⟨n, later⟩ : ∃ n, Appends n q (build machine era q rest) := buildAppends rest q (headers.rest q)
      obtain ⟨same, length⟩ := more q (headers.rest q) (emits.placed place) room
      have grown := emits.grown
      have after := later.grown
      have at' : position.toNat = p.emitted := by
        rw [execPosition done, place, BitVec.toNat_ofNat, Nat.mod_eq_of_lt (by omega)]
      have next : q.emitted = p.emitted + 1 + command.follow p.ps opcode := by omega
      rw [encoded]
      dsimp only
      rw [starts, finish, ← next, ← emits.pointers, at', same]
      exact ⟨rfl, length⟩
    | (.error e, q) =>
      rw [done] at room
      obtain ⟨refused, none⟩ := execRefused done
      have same := more q (headers.rest q) (none.placed place) room
      rw [refused]
      rwa [none.grown, none.pointers] at same

theorem buildFramed (commands : List Command) (p : Program) (headers : HeaderFirst p commands)
    (place : p.currentPc = BitVec.ofNat 32 p.emitted) (room : (build machine era p commands).emitted < 2 ^ 32) :
    Framed (followWords p.ps) (readWord (build machine era p commands)) p.emitted (followed era p.ps commands) ↔
      ∀ command ∈ commands, ∀ opcode, command.opcode era = .ok opcode →
        followWords p.ps opcode = command.follow p.ps opcode := by
  induction commands generalizing p with
  | nil => simp [followed, Framed]
  | cons command rest more =>
    rw [build] at room ⊢
    rw [followed, List.forall_mem_cons]
    rcases done : command.exec machine era p with ⟨e | position, q⟩
    · rw [done] at room
      obtain ⟨refused, none⟩ := execRefused done
      have same := more q (headers.rest q) (none.placed place) room
      rw [none.grown, none.pointers] at same
      rw [refused]
      refine same.trans ⟨fun told => ⟨fun _ encoded => (by cases encoded), told⟩, fun told => told.2⟩
    · rw [done] at room
      dsimp only at room
      obtain ⟨opcode, encoded, emits⟩ := execEmits (headers.head command rfl) done
      obtain ⟨n, later⟩ : ∃ n, Appends n q (build machine era q rest) := buildAppends rest q (headers.rest q)
      have same := more q (headers.rest q) (emits.placed place) room
      have grown := emits.grown
      have after := later.grown
      have next : q.emitted = p.emitted + 1 + command.follow p.ps opcode := by omega
      have word : readWord (build machine era q rest) p.emitted = opcode := by
        rw [readWord, later.swapped, later.kept (emits.placed place) room p.emitted (by omega)]
        exact emits.word place (by omega)
      rw [encoded]
      dsimp only
      rw [Framed, word, ← next]
      rw [emits.pointers] at same
      rw [same]
      refine and_congr_left fun _ => ⟨fun told opcode' encoded' => ?_, fun told => told opcode rfl⟩
      cases encoded'
      exact told

def Delimited (machine : Machine) (era : Era) (p : Program) (commands : List Command) : Prop :=
  let done := build machine era p commands
  walk (followWords p.ps) (readWord done) done.currentPc.toNat done.currentPc.toNat 0 =
    positions machine era p commands ++ [done.currentPc.toNat]

theorem delimitedIff (headers : HeaderFirst p commands) (empty : p.emitted = 0) (start : p.currentPc = 0)
    (room : (build machine era p commands).emitted < 2 ^ 32) :
    Delimited machine era p commands ↔ ∀ command ∈ commands, ∀ opcode, command.opcode era = .ok opcode →
      followWords p.ps opcode = command.follow p.ps opcode := by
  have place : p.currentPc = BitVec.ofNat 32 p.emitted := by rw [start, empty]; rfl
  obtain ⟨n, appends⟩ : ∃ n, Appends n p (build machine era p commands) := buildAppends commands p headers
  obtain ⟨begun, ended⟩ := buildStarts commands p headers place room
  have finished : (build machine era p commands).currentPc.toNat = finish 0 (followed era p.ps commands) := by
    rw [appends.placed place, BitVec.toNat_ofNat, Nat.mod_eq_of_lt room, ended, empty]
  rw [← buildFramed commands p headers place room, Delimited, finished, begun, empty]
  exact walkStarts (by omega)

end Flexbuild.Rta
