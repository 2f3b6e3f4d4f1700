import Flexbuild.RtaLoadWords

/-! References to labels, patched into commands that stand in the buffer already. Each patch is a field of one
word, read and written through the order of its bytes, so patches of different words do not meet. -/
namespace Flexbuild.Rta
open BitFields

def Jump.offsetMask : Word := 0xff
def Move.offsetMask : Word := 0xff#32 <<< 8
def Ldst.offsetMask : Word := 0xff#32 <<< 8

def rtaSetLabel (p : Program) : Word := p.currentPc + p.startPc

def Program.setWord (p : Program) (i : Nat) (opcode : Word) : Program :=
  { p with buffer := Function.update p.buffer i (if p.bswap then swab32 opcode else opcode) }

def patchWord (p : Program) (line : Int) (change : Word → Word) : Except Unit Unit × Program :=
  if line < 0 then (.error (), p) else (.ok (), p.setWord line.toNat (change (readWord p line.toNat)))

def moveField (newRef opcode : Word) : Word := opcode &&& ~~~Move.offsetMask ||| newRef <<< 10 &&& Move.offsetMask

def rtaPatchMove (p : Program) (line : Int) (newRef : Word) : Except Unit Unit × Program :=
  patchWord p line (moveField newRef)

def jmpField (startPc : Word) (line : Int) (newRef opcode : Word) : Word :=
  opcode &&& ~~~Jump.offsetMask ||| newRef - (BitVec.ofInt 32 line + startPc) &&& Jump.offsetMask

def rtaPatchJmp (p : Program) (line : Int) (newRef : Word) : Except Unit Unit × Program :=
  patchWord p line (jmpField p.startPc line newRef)

def headerField (newRef opcode : Word) : Word := opcode &&& ~~~Hdr.startIdxMask ||| newRef <<< 16 &&& Hdr.startIdxMask

def rtaPatchHeader (p : Program) (line : Int) (newRef : Word) : Except Unit Unit × Program :=
  patchWord p line (headerField newRef)

def loadField (newRef opcode : Word) : Word :=
  let opcode := opcode &&& ~~~Ldst.offsetMask
  if opcode &&& (Ldst.srcdst 0x40 ||| Ldst.deco) ≠ 0 then opcode ||| newRef <<< 8 &&& Ldst.offsetMask
  else opcode ||| newRef <<< 10 &&& Ldst.offsetMask

def rtaPatchLoad (p : Program) (line : Int) (newRef : Word) : Except Unit Unit × Program :=
  patchWord p line (loadField newRef)

def descriptorSources : List Word :=
  [Ldst.srcdst 0x40, Ldst.srcdst 0x41, Ldst.srcdst 0x42, Ldst.srcdst 0x45, Ldst.srcdst 0x46]

def storeField (newRef opcode : Word) : Word :=
  let opcode := opcode &&& ~~~Ldst.offsetMask
  if opcode &&& Ldst.srcdstMask ∈ descriptorSources then opcode ||| newRef <<< 8 &&& Ldst.offsetMask
  else opcode ||| newRef <<< 10 &&& Ldst.offsetMask

def rtaPatchStore (p : Program) (line : Int) (newRef : Word) : Except Unit Unit × Program :=
  patchWord p line (storeField newRef)

inductive Patched where
  | jmp | move | header
  | load (dst : BitVec 64)
  | store (src : BitVec 64)

structure Patch where
  what : Patched
  line : Nat
  newRef : Word

namespace Patch

variable {p q : Program} {patch other : Patch} {patches : List Patch} {word startPc : Word} {i : Nat}

def exec (patch : Patch) (p : Program) : Except Unit Unit × Program :=
  match patch.what with
  | .jmp => rtaPatchJmp p patch.line patch.newRef
  | .move => rtaPatchMove p patch.line patch.newRef
  | .header => rtaPatchHeader p patch.line patch.newRef
  | .load _ => rtaPatchLoad p patch.line patch.newRef
  | .store _ => rtaPatchStore p patch.line patch.newRef

def mask (patch : Patch) : Word :=
  match patch.what with
  | .jmp => Jump.offsetMask
  | .move => Move.offsetMask
  | .header => Hdr.startIdxMask
  | .load _ | .store _ => Ldst.offsetMask

def change (patch : Patch) (startPc word : Word) : Word :=
  match patch.what with
  | .jmp => jmpField startPc patch.line patch.newRef word
  | .move => moveField patch.newRef word
  | .header => headerField patch.newRef word
  | .load _ => loadField patch.newRef word
  | .store _ => storeField patch.newRef word

def all (patches : List Patch) (p : Program) : Program := patches.foldl (fun p patch => (patch.exec p).2) p

theorem execWord (patch : Patch) (p : Program) :
    (patch.exec p).2 = p.setWord patch.line (patch.change p.startPc (readWord p patch.line)) := by
  have inside : ¬((patch.line : Int) < 0) := by omega
  have patched (change : Word → Word) :
      (patchWord p patch.line change).2 = p.setWord patch.line (change (readWord p patch.line)) := by
    rw [patchWord, if_neg inside]
    rfl
  obtain ⟨what, line, newRef⟩ := patch
  cases what with
  | jmp => exact patched _
  | move => exact patched _
  | header => exact patched _
  | load => exact patched _
  | store => exact patched _

theorem readSet (p : Program) (line : Nat) (opcode : Word) (i : Nat) :
    readWord (p.setWord line opcode) i = if i = line then opcode else readWord p i := by
  unfold readWord Program.setWord
  dsimp only
  by_cases here : i = line
  · subst here
    rw [Function.update_self, if_pos rfl]
    cases p.bswap with
    | false => rfl
    | true => exact swabSwab _
  · rw [Function.update_of_ne here, if_neg here]

theorem execRead (patch : Patch) (p : Program) (i : Nat) : readWord (patch.exec p).2 i =
    if i = patch.line then patch.change p.startPc (readWord p patch.line) else readWord p i := by
  rw [execWord, readSet]

theorem execApart (patch : Patch) (p : Program) (apart : i ≠ patch.line) :
    (patch.exec p).2.buffer i = p.buffer i := by
  rw [execWord]
  exact Function.update_of_ne apart _ _

theorem setStart (p : Program) (line : Nat) (opcode : Word) : (p.setWord line opcode).startPc = p.startPc := rfl

theorem execStart (patch : Patch) (p : Program) : (patch.exec p).2.startPc = p.startPc := by rw [execWord, setStart]

theorem setCommute (p : Program) {a b : Nat} (apart : a ≠ b) (x y : Word) :
    (p.setWord a x).setWord b y = (p.setWord b y).setWord a x := by
  unfold Program.setWord
  dsimp only
  rw [Function.update_comm apart]

theorem execCommute (apart : patch.line ≠ other.line) (p : Program) :
    (other.exec (patch.exec p).2).2 = (patch.exec (other.exec p).2).2 := by
  rw [execWord other, execWord patch (other.exec p).2, execStart, execStart, execRead, execRead, if_neg apart.symm,
    if_neg apart, execWord patch p, execWord other p]
  exact setCommute p apart _ _

theorem readOthers (patches : List Patch) (p : Program) (apart : ∀ patch ∈ patches, patch.line ≠ i) :
    readWord (all patches p) i = readWord p i := by
  induction patches generalizing p with
  | nil => rfl
  | cons first rest later =>
    have next := later (first.exec p).2 fun patch among => apart patch (List.mem_cons_of_mem _ among)
    refine next.trans ?_
    rw [execRead, if_neg (apart first List.mem_cons_self).symm]

theorem allRead (patches : List Patch) (p : Program) (apart : (patches.map line).Nodup) :
    ∀ patch ∈ patches, readWord (all patches p) patch.line = patch.change p.startPc (readWord p patch.line) := by
  induction patches generalizing p with
  | nil => exact nofun
  | cons first rest later =>
    obtain ⟨alone, apart⟩ := List.nodup_cons.1 apart
    have others : ∀ patch ∈ rest, patch.line ≠ first.line :=
      fun patch among same => alone (same ▸ List.mem_map_of_mem among)
    intro patch among
    change readWord (all rest (first.exec p).2) patch.line = _
    rcases List.mem_cons.1 among with rfl | among
    · rw [readOthers rest _ others, execRead, if_pos rfl]
    · rw [later (first.exec p).2 apart patch among, execStart, execRead, if_neg (others patch among)]

theorem allApart (patches : List Patch) (p : Program) (apart : ∀ patch ∈ patches, patch.line ≠ i) :
    (all patches p).buffer i = p.buffer i := by
  induction patches generalizing p with
  | nil => rfl
  | cons first rest later =>
    have next := later (first.exec p).2 fun patch among => apart patch (List.mem_cons_of_mem _ among)
    exact next.trans (execApart first p (apart first List.mem_cons_self).symm)

theorem allOrder {patches patches' : List Patch} (apart : (patches.map line).Nodup) (perm : patches.Perm patches')
    (p : Program) : all patches' p = all patches p := by
  refine (perm.foldl_eq' (fun a inA b inB p => ?_) p).symm
  by_cases same : a = b
  · rw [same]
  · exact execCommute (fun lines => same (List.inj_on_of_nodup_map apart inA inB lines)) p

theorem allRecord (patches : List Patch) (p : Program) :
    all patches p = { p with buffer := (all patches p).buffer } := by
  induction patches generalizing p with
  | nil => rfl
  | cons first rest later =>
    have next := later (first.exec p).2
    change all rest (first.exec p).2 = { p with buffer := (all rest (first.exec p).2).buffer }
    rw [next, execWord]
    rfl

end Patch

namespace Patch

variable {p q : Program} {patch : Patch} {patches : List Patch}

def Target (p q : Program) (patch : Patch) : Prop :=
  let word := readWord q patch.line
  match patch.what with
  | .jmp => (word.extractLsb' 0 8).toInt + (patch.line + p.startPc.toNat) = patch.newRef.toNat
  | .move => ((word &&& Move.offsetMask) >>> 8).toNat = 4 * patch.newRef.toNat
  | .header => word &&& Hdr.startIdxMask = startIdxField patch.newRef
  | .load dst => word &&& Ldst.offsetMask = loadOffset dst (4 * patch.newRef) &&& Ldst.offsetMask
  | .store src => word &&& Ldst.offsetMask = storeOffset src ((4 * patch.newRef).setWidth 16) &&& Ldst.offsetMask

structure Allowed (p : Program) (patch : Patch) : Prop where
  line : patch.line < p.currentPc.toNat
  label : ∃ q : Program, q.startPc = p.startPc ∧ q.currentPc ≤ p.currentPc ∧ patch.newRef = rtaSetLabel q
  command : match patch.what with
    | .load dst => ∃ era offset length flags, loadOpcode era dst offset length flags = .ok (readWord p patch.line)
    | .store src => ∃ era offset length flags, storeOpcode era src offset length flags = .ok (readWord p patch.line)
    | .jmp | .move | .header => True

def Right (p : Program) (patch : Patch) : Prop :=
  match patch.what with
  | .jmp | .header => True
  | .move => patch.newRef < 64
  | .load dst => patch.newRef = 0 ∨ named dst Reg.descbuf ∨ named dst Reg.cctrl ∨ named dst Reg.ictrl ∨ named dst Reg.clrw
  | .store src => patch.newRef = 0 ∨
    (readWord p patch.line &&& Ldst.srcdstMask ∈ descriptorSources ↔ named src Reg.descbuf ∨ jobBuffer src)

theorem changeBits (patch : Patch) (startPc word : Word) :
    patch.change startPc word &&& ~~~patch.mask = word &&& ~~~patch.mask := by
  have field (mask new : Word) : (word &&& ~~~mask ||| new &&& mask) &&& ~~~mask = word &&& ~~~mask := by
    have none : mask &&& ~~~mask = 0 := BitVec.and_not_self mask
    rw [seenLeft, BitVec.and_assoc, BitVec.and_self]
    rw [BitVec.and_assoc, none]
    exact BitVec.and_zero
  obtain ⟨what, line, newRef⟩ := patch
  cases what with
  | jmp => exact field _ _
  | move => exact field _ _
  | header => exact field _ _
  | load =>
    change loadField newRef word &&& _ = _
    unfold loadField
    dsimp only
    split
    · exact field _ _
    · exact field _ _
  | store =>
    change storeField newRef word &&& _ = _
    unfold storeField
    dsimp only
    split
    · exact field _ _
    · exact field _ _

theorem labelSmall (room : p.startPc.toNat + p.currentPc.toNat ≤ 64) (allowed : patch.Allowed p) :
    patch.newRef.toNat ≤ 64 := by
  obtain ⟨r, start, before, label⟩ := allowed.label
  have most : r.currentPc.toNat ≤ p.currentPc.toNat := before
  rw [label, rtaSetLabel, start, BitVec.toNat_add]
  exact (Nat.mod_le _ _).trans (by omega)

structure Units (newRef : Word) : Prop where
  load : (4 * newRef) >>> 2 <<< 8 = newRef <<< 8
  loadBytes : (4 * newRef) <<< 8 = newRef <<< 10
  store : (((4 * newRef).setWidth 16) >>> 2).setWidth 32 <<< 8 = newRef <<< 8
  storeBytes : ((4 * newRef).setWidth 16).setWidth 32 <<< 8 = newRef <<< 10
  apart : newRef <<< 8 &&& Ldst.offsetMask = newRef <<< 10 &&& Ldst.offsetMask ↔ newRef = 0
  move : ((newRef <<< 10 &&& Move.offsetMask) >>> 8).toNat = 4 * newRef.toNat ↔ newRef < 64

theorem unitsOf {newRef : Word} (small : newRef.toNat ≤ 64) : Units newRef := by
  have all : ∀ n : Fin 65, let r := BitVec.ofNat 32 n
      (4 * r) >>> 2 <<< 8 = r <<< 8 ∧ (4 * r) <<< 8 = r <<< 10 ∧
        (((4 * r).setWidth 16) >>> 2).setWidth 32 <<< 8 = r <<< 8 ∧ ((4 * r).setWidth 16).setWidth 32 <<< 8 = r <<< 10 ∧
        (r <<< 8 &&& Ldst.offsetMask = r <<< 10 &&& Ldst.offsetMask ↔ r = 0) ∧
        (((r <<< 10 &&& Move.offsetMask) >>> 8).toNat = 4 * r.toNat ↔ r < 64) := by decide
  have one := all ⟨newRef.toNat, Nat.lt_succ_of_le small⟩
  dsimp only at one
  rw [BitVec.ofNat_toNat, BitVec.setWidth_eq] at one
  obtain ⟨load, loadBytes, store, storeBytes, apart, move⟩ := one
  exact ⟨load, loadBytes, store, storeBytes, apart, move⟩

theorem fieldSeen (word mask new : Word) : (word &&& ~~~mask ||| new &&& mask) &&& mask = new &&& mask := by
  have none : ~~~mask &&& mask = 0 := by rw [BitVec.and_comm, BitVec.and_not_self]
  rw [seenRight, BitVec.and_assoc, BitVec.and_self]
  rw [BitVec.and_assoc, none]
  exact BitVec.and_zero

theorem jmpLow (startPc word newRef : Word) (line : Int) : (jmpField startPc line newRef word).extractLsb' 0 8 =
    (newRef - (BitVec.ofInt 32 line + startPc)).extractLsb' 0 8 := by
  have low (x : Word) : x.extractLsb' 0 8 = (x &&& Jump.offsetMask).extractLsb' 0 8 := by
    ext i small
    have bit : Jump.offsetMask.getLsbD i = true := (by decide : ∀ i < 8, Jump.offsetMask.getLsbD i = true) i small
    simp [BitVec.getLsbD_and, bit]
  rw [low, jmpField, fieldSeen, ← low]

theorem jmpReaches {startPc newRef : Word} {line : Nat} (small : newRef.toNat ≤ 64) (inside : line + startPc.toNat < 64) :
    ((newRef - (BitVec.ofInt 32 line + startPc)).extractLsb' 0 8).toInt + (line + startPc.toNat) = newRef.toNat := by
  have place : (BitVec.ofInt 32 line + startPc).toNat = line + startPc.toNat := by
    rw [BitVec.ofInt_natCast, BitVec.toNat_add, BitVec.toNat_ofNat]
    omega
  have low : ((newRef - (BitVec.ofInt 32 line + startPc)).extractLsb' 0 8).toNat =
      (2 ^ 32 - (line + startPc.toNat) + newRef.toNat) % 2 ^ 32 % 2 ^ 8 := by
    rw [BitVec.extractLsb'_toNat, BitVec.toNat_sub, place, Nat.shiftRight_zero]
  rw [BitVec.toInt_eq_toNat_bmod, low, Int.bmod_def]
  omega

def countsWords (opcode : Word) : Prop := opcode &&& ~~~Ldst.offsetMask &&& (Ldst.srcdst 0x40 ||| Ldst.deco) ≠ 0

instance (opcode : Word) : Decidable (countsWords opcode) := inferInstanceAs (Decidable (_ ≠ _))

theorem loadFieldSeen (newRef word : Word) : loadField newRef word &&& Ldst.offsetMask =
    if countsWords word then newRef <<< 8 &&& Ldst.offsetMask else newRef <<< 10 &&& Ldst.offsetMask := by
  by_cases words : countsWords word
  · have field : loadField newRef word = word &&& ~~~Ldst.offsetMask ||| newRef <<< 8 &&& Ldst.offsetMask := if_pos words
    rw [if_pos words, field, fieldSeen]
  · have field : loadField newRef word = word &&& ~~~Ldst.offsetMask ||| newRef <<< 10 &&& Ldst.offsetMask := if_neg words
    rw [if_neg words, field, fieldSeen]

theorem storeFieldSeen (newRef word : Word) : storeField newRef word &&& Ldst.offsetMask =
    if word &&& Ldst.srcdstMask ∈ descriptorSources then newRef <<< 8 &&& Ldst.offsetMask
    else newRef <<< 10 &&& Ldst.offsetMask := by
  have kept : word &&& ~~~Ldst.offsetMask &&& Ldst.srcdstMask = word &&& Ldst.srcdstMask := by
    rw [BitVec.and_assoc]
    rfl
  unfold storeField
  dsimp only
  rw [kept]
  split
  · exact fieldSeen _ _ _
  · exact fieldSeen _ _ _

theorem countsEntries : ∀ entry ∈ loadDst,
    ((entry.dstOpcode &&& (Ldst.srcdst 0x40 ||| Ldst.deco) ≠ 0 ↔ entry.dst = Reg.descbuf) ↔
      entry.dst = Reg.descbuf ∨ entry.dst = Reg.cctrl ∨ entry.dst = Reg.ictrl ∨ entry.dst = Reg.clrw) :=
  everyEntry (by decide)

theorem countsLoad {era : Era} {dst : BitVec 64} {offset length flags opcode : Word}
    (encoded : loadOpcode era dst offset length flags = .ok opcode) : (countsWords opcode ↔ named dst Reg.descbuf) ↔
      named dst Reg.descbuf ∨ named dst Reg.cctrl ∨ named dst Reg.ictrl ∨ named dst Reg.clrw := by
  obtain ⟨-, entry, member, len, off, name, rfl, lenInside, offInside, -⟩ := loadParts encoded
  have within : ~~~Ldst.offsetMask &&& (Ldst.srcdst 0x40 ||| Ldst.deco) = Ldst.srcdst 0x40 ||| Ldst.deco := by decide
  have base : loadBase flags &&& (Ldst.srcdst 0x40 ||| Ldst.deco) = 0 := by
    rw [loadBaseSeen (by decide)]
    split <;> decide
  rw [countsWords, BitVec.and_assoc, within, loadSeen lenInside offInside (by decide), seenRight base, namedSame name,
    namedSame name, namedSame name, namedSame name]
  exact countsEntries entry member

-- The offset fields that `Target` compares with are the ones the commands themselves are written with.
theorem loadOffsetWritten {era : Era} {dst : BitVec 64} {offset length flags opcode : Word}
    (encoded : loadOpcode era dst offset length flags = .ok opcode) :
    opcode &&& Ldst.offsetMask = loadOffset dst offset &&& Ldst.offsetMask := by
  obtain ⟨-, entry, member, len, off, -, rfl, lenInside, -, rfl, -⟩ := loadParts encoded
  refine seenRight ?_
  have base : loadBase flags &&& Ldst.offsetMask = 0 := by
    rw [loadBaseSeen (by decide)]
    split <;> decide
  rw [seenLeft (insideApart lenInside (by decide)), seenLeft (clearWithin (loadEntries entry member).1 (by decide)), base]

theorem storeOffsetWritten {era : Era} {src dst : BitVec 64} {offset : BitVec 16} {length flags opcode : Word}
    (encoded : storeOpcode era src offset length flags = .ok opcode)
    (plain : (Command.store src offset dst length flags).Plain) :
    opcode &&& Ldst.offsetMask = storeOffset src offset &&& Ldst.offsetMask := by
  obtain ⟨-, val, word, register, immediate⟩ := storeParts encoded
  obtain ⟨len, off, fields, lenInside, -, rfl, -⟩ := storeFieldsInside plain
  rw [word, fields, ← BitVec.or_assoc]
  refine seenRight ?_
  have base : storeBase flags &&& Ldst.offsetMask = 0 := by
    rw [storeBaseSeen (by decide) (by decide)]
    split <;> decide
  rw [seenLeft (insideApart lenInside (by decide)), seenLeft (storeValClear register immediate (by decide)), base]

theorem storeCounts {era : Era} {src dst : BitVec 64} {offset : BitVec 16} {length flags opcode : Word}
    (encoded : storeOpcode era src offset length flags = .ok opcode)
    (plain : (Command.store src offset dst length flags).Plain) (register : flags &&& Flag.immed = 0)
    (narrow : (src.setWidth 32).setWidth 64 = src) :
    opcode &&& Ldst.srcdstMask ∈ descriptorSources ↔ named src Reg.descbuf ∨ jobBuffer src := by
  obtain ⟨-, val, word, entry, -⟩ := storeParts encoded
  obtain ⟨len, off, fields, lenInside, offInside, -, -⟩ := storeFieldsInside plain
  have base : storeBase flags &&& Ldst.srcdstMask = 0 := by
    rw [storeBaseSeen (by decide) (by decide)]
    split <;> decide
  rw [word, fields, ← BitVec.or_assoc, loadSeen lenInside offInside (by decide), seenRight base]
  have counts : ∀ entry ∈ storeSrcTable, (entry.2 &&& Ldst.srcdstMask ∈ descriptorSources ↔
      named (entry.1.setWidth 64) Reg.descbuf ∨ jobBuffer (entry.1.setWidth 64)) := everyEntry (by decide)
  have told := counts _ (entry register)
  rwa [narrow] at told

theorem eitherUnit {a b : Prop} [Decidable a] [Decidable b] {x y : Word} :
    (if a then x else y) = (if b then x else y) ↔ x = y ∨ (a ↔ b) := by
  by_cases first : a
  · by_cases second : b
    · simp only [first, second, if_true, or_true]
    · simp only [first, second, if_true, if_false, iff_false, not_true_eq_false, or_false]
  · by_cases second : b
    · simp only [first, second, if_true, if_false, iff_true, or_false]
      exact eq_comm
    · simp only [first, second, if_false, or_true]

theorem targetIff (room : p.startPc.toNat + p.currentPc.toNat ≤ 64) (allowed : patch.Allowed p)
    (patched : readWord q patch.line = patch.change p.startPc (readWord p patch.line)) :
    patch.Target p q ↔ patch.Right p := by
  have small := labelSmall room allowed
  have units := unitsOf small
  have inside := allowed.line
  have command := allowed.command
  unfold Target Right
  rw [patched]
  obtain ⟨what, line, newRef⟩ := patch
  cases what with
  | jmp =>
    refine iff_true_intro ?_
    change ((jmpField p.startPc line newRef _).extractLsb' 0 8).toInt + _ = _
    rw [jmpLow]
    exact jmpReaches small (by dsimp only at inside; omega)
  | move =>
    change ((moveField newRef _ &&& Move.offsetMask) >>> 8).toNat = _ ↔ _
    rw [moveField, fieldSeen]
    exact units.move
  | header =>
    refine iff_true_intro ?_
    change headerField newRef _ &&& Hdr.startIdxMask = startIdxField newRef
    rw [headerField, fieldSeen, startIdxField]
  | load dst =>
    obtain ⟨era, offset, length, flags, encoded⟩ := command
    change loadField newRef (readWord p line) &&& Ldst.offsetMask = loadOffset dst (4 * newRef) &&& Ldst.offsetMask ↔ _
    have expected : loadOffset dst (4 * newRef) &&& Ldst.offsetMask =
        if named dst Reg.descbuf then newRef <<< 8 &&& Ldst.offsetMask else newRef <<< 10 &&& Ldst.offsetMask := by
      rw [loadOffset, units.load, units.loadBytes]
      exact apply_ite (· &&& Ldst.offsetMask) _ _ _
    rw [loadFieldSeen, expected, eitherUnit, units.apart, countsLoad encoded]
  | store src =>
    change storeField newRef (readWord p line) &&& Ldst.offsetMask =
      storeOffset src ((4 * newRef).setWidth 16) &&& Ldst.offsetMask ↔ _
    have expected : storeOffset src ((4 * newRef).setWidth 16) &&& Ldst.offsetMask =
        if named src Reg.descbuf ∨ jobBuffer src then newRef <<< 8 &&& Ldst.offsetMask
        else newRef <<< 10 &&& Ldst.offsetMask := by
      rw [storeOffset, units.store, units.storeBytes]
      exact apply_ite (· &&& Ldst.offsetMask) _ _ _
    rw [storeFieldSeen, expected, eitherUnit, units.apart]

end Patch

structure References (p q : Program) (patches : List Patch) : Prop where
  targets : ∀ patch ∈ patches, patch.Target p q
  bits : ∀ patch ∈ patches, readWord q patch.line &&& ~~~patch.mask = readWord p patch.line &&& ~~~patch.mask
  words : ∀ i, (∀ patch ∈ patches, patch.line ≠ i) → q.buffer i = p.buffer i
  record : q = { p with buffer := q.buffer }
  order : ∀ patches', patches.Perm patches' → Patch.all patches' p = q

theorem referencesPatched (p : Program) (patches : List Patch) (room : p.startPc.toNat + p.currentPc.toNat ≤ 64)
    (apart : (patches.map Patch.line).Nodup) (allowed : ∀ patch ∈ patches, patch.Allowed p) :
    References p (Patch.all patches p) patches ↔ ∀ patch ∈ patches, patch.Right p := by
  have patched := Patch.allRead patches p apart
  constructor
  · intro references patch among
    exact (Patch.targetIff room (allowed patch among) (patched patch among)).1 (references.targets patch among)
  · intro right
    refine ⟨fun patch among => ?_, fun patch among => ?_, fun i others => Patch.allApart patches p others,
      Patch.allRecord patches p, fun patches' perm => Patch.allOrder apart perm p⟩
    · exact (Patch.targetIff room (allowed patch among) (patched patch among)).2 (right patch among)
    · rw [patched patch among, Patch.changeBits]

def crossing : Program :=
  let words := [cmdJump, cmdLoad ||| Ldst.deco ||| Ldst.srcdst 0x40 ||| 1, cmdStore ||| Ldst.deco ||| Ldst.srcdst 0x08 ||| 8]
  { rtaProgramCntxtInit (fun i => swab32 (words.getD i 0)) 2 with currentPc := 3, bswap := true }

def crossingPatches : List Patch :=
  [⟨.jmp, 0, 5⟩, ⟨.load (Reg.descbuf.setWidth 64), 1, 3⟩, ⟨.store (Reg.math0.setWidth 64), 2, 4⟩]

theorem crossingPatched : References crossing (Patch.all crossingPatches crossing) crossingPatches := by
  have taken (k : Word) (before : k ≤ crossing.currentPc) : ∃ q : Program, q.startPc = crossing.startPc ∧
      q.currentPc ≤ crossing.currentPc ∧ k + crossing.startPc = rtaSetLabel q :=
    ⟨{ crossing with currentPc := k }, rfl, before, rfl⟩
  refine (referencesPatched crossing crossingPatches (by decide) (by decide) ?_).2 ?_
  · simp only [crossingPatches, List.forall_mem_cons]
    exact ⟨⟨by decide, taken 3 (by decide), trivial⟩, ⟨by decide, taken 1 (by decide), ⟨7, 0, 4, 0, by decide⟩⟩,
      ⟨by decide, taken 2 (by decide), ⟨7, 0, 8, 0, by decide⟩⟩, nofun⟩
  · simp only [crossingPatches, List.forall_mem_cons]
    exact ⟨trivial, Or.inr (Or.inl (by decide)), Or.inr (by decide), nofun⟩

theorem referencesMissed :
    (∃ word : Word, loadOpcode 7 (Reg.math0.setWidth 64) 0 8 0 = .ok word ∧
      let p : Program := { rtaProgramCntxtInit (fun _ => word) 0 with currentPc := 2 }
      ¬References p (Patch.all [⟨.load (Reg.math0.setWidth 64), 0, 1⟩] p) [⟨.load (Reg.math0.setWidth 64), 0, 1⟩]) ∧
    let p : Program := { rtaProgramCntxtInit (fun _ => 0) 0 with currentPc := 64 }
    ¬References p (Patch.all [⟨.move, 0, 64⟩] p) [⟨.move, 0, 64⟩] := by
  refine ⟨⟨cmdLoad ||| Ldst.deco ||| Ldst.srcdst 0x08 ||| 8, by decide, fun references => ?_⟩, fun references => ?_⟩
  · have offset : (readWord (Patch.all [⟨.load (Reg.math0.setWidth 64), 0, 1⟩] _) 0) &&& Ldst.offsetMask = _ :=
      references.targets _ (List.mem_singleton.2 rfl)
    exact absurd offset (by decide)
  · have offset : ((readWord (Patch.all [⟨.move, 0, 64⟩] _) 0 &&& Move.offsetMask) >>> 8).toNat = 4 * 64 :=
      references.targets _ (List.mem_singleton.2 rfl)
    exact absurd offset (by decide)

end Flexbuild.Rta
