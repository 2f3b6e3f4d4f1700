import Flexbuild.SoftStatements

/-! Where the code of an expression reads the frame. A field that ends at bit 128 or later leaves the window
offset at zero, and so does a checksum, whose size and initial value are read behind its offset. -/
namespace Flexbuild.SoftCode
open ByteMemory (Byte)
open SoftIr (Word CObject CENode)

variable {c c' : CCode} {e initial offset size : CENode} {code : List CInstruction} {env : Env} {s : State}
  {stores : Bool} {l : List CObject}

section Bits

def Read.bits (r : Read) : List (Word × Nat) := (places r.start r.stop).map fun i => (r.wo + BitVec.ofNat 64 (i / 8), i % 8)

def Read.Relative (wo : Word) (r : Read) : Prop :=
  ∀ o, r.field = some o → r.bits = Read.bits ⟨wo, o.start, o.stop, some o⟩

def value (env : Env) (processed : Processed) (s : State) : Word :=
  match processed with
  | some (code, reg, _) => (execAll env s code).get reg
  | none => 0

def Sized (o : CObject) : Prop := o.start ≤ o.stop ∧ o.stop ≤ o.start + 63 ∧ o.stop < 2 ^ 32

theorem fieldsSized (parsed : Parsed e) : ∀ o ∈ fields e, Sized o := by
  induction e with
  | objRef o =>
    intro o' member
    by_cases frame : o.type = .fw
    · rw [fields, if_pos frame, List.mem_singleton] at member
      subst member
      exact parsed frame
    · rw [fields, if_neg frame] at member
      cases member
  | intConst _ =>
    intro o member
    cases member
  | monadic type node later => exact later parsed
  | dyadic type left right leftSized rightSized =>
    intro o member
    by_cases checksum : type = .checksum
    · subst checksum
      cases member
    · rw [fieldsSides checksum, List.mem_append] at member
      exact member.elim (leftSized parsed.2.1 o) (rightSized parsed.2.2 o)

theorem operandsParsed (parsed : Parsed e) (one : checksums e = [(initial, offset, size)]) :
    Parsed initial ∧ Parsed offset ∧ Parsed size := by
  induction e with
  | objRef _ | intConst _ => cases one
  | monadic type node later => exact later parsed one
  | dyadic type left right leftParsed rightParsed =>
    obtain ⟨_, inLeft, inRight⟩ := parsed
    have both (one : checksums left ++ checksums right = [(initial, offset, size)]) :
        Parsed initial ∧ Parsed offset ∧ Parsed size := by
      rcases List.append_eq_singleton_iff.mp one with ⟨_, there⟩ | ⟨there, _⟩
      · exact rightParsed inRight there
      · exact leftParsed inLeft there
    by_cases checksum : type = .checksum
    · subst checksum
      match right, one, both, inRight with
      | .dyadic kind _ _, one, _, inRight =>
        cases (List.cons.inj one).1
        exact ⟨inLeft, inRight.2.1, inRight.2.2⟩
      | .objRef _, one, both, _ | .intConst _, one, both, _ | .monadic _ _, one, both, _ => exact both one
    · rw [checksumsSides checksum] at one
      exact both one

theorem bitsMoved (wo : Word) (field : Option CObject) {start stop a : Nat} (room : 8 * a ≤ start) (ordered : start ≤ stop) :
    Read.bits ⟨wo + BitVec.ofNat 64 a, start - a * 8, stop - a * 8, field⟩ = Read.bits ⟨wo, start, stop, field⟩ := by
  have moved : places start stop = (places (start - a * 8) (stop - a * 8)).map (a * 8 + ·) := by
    unfold places
    rw [List.map_add_range']
    congr 1 <;> omega
  unfold Read.bits
  dsimp only
  rw [moved, List.map_map]
  refine List.map_congr_left fun i _ => ?_
  have byte : (a * 8 + i) / 8 = a + i / 8 := by omega
  have bit : (a * 8 + i) % 8 = i % 8 := by omega
  simp only [Function.comp, byte, bit, BitVec.ofNat_add, BitVec.add_assoc]

theorem bitsBase {wo wo' : Word} {field : Option CObject} {start stop : Nat} (ordered : start ≤ stop)
    (same : Read.bits ⟨wo, start, stop, field⟩ = Read.bits ⟨wo', start, stop, field⟩) : wo = wo' := by
  obtain ⟨n, count⟩ : ∃ n, stop + 1 - start = n + 1 := ⟨stop - start, by omega⟩
  simp only [Read.bits, places, count, List.range'_succ, List.map_cons, List.cons.injEq, Prod.mk.injEq] at same
  exact (BitVec.add_left_inj _).mp same.1.1

end Bits

section Running

def Far (l : List CObject) : Prop := ∃ o ∈ l, 128 ≤ o.stop

theorem neutralExec {i : CInstruction} (plain : i.neutral stores = true) (s : State) :
    (exec env s i).wo = s.wo ∧ reads s i = none := by
  cases i with
  | label _ | jmp _ | compareWr0ToIv _ _ _ => cases plain
  | loadBitsFwToWr _ _ _ _ _ | loadSvToWo _ | addSvToWo _ | setWoByWr _ | addWoByWr _ => cases plain
  | storeIvToRa _ _ _ | storeWrToRa _ _ _ | onesCompWr1ToWr0 | nop => exact ⟨rfl, rfl⟩
  | loadBytesRaToWr reg _ _ _ | loadBytesPaToWr reg _ _ _ | loadBitsIvToWr reg _ _ _ | zeroWr reg
  | shiftLeftWrBySv reg _ | shiftRightWrBySv reg _ => exact ⟨by cases reg <;> rfl, rfl⟩
  | addWrWrToWr target _ _ | subWrWrToWr target _ _ | addWrIvToWr target _ _ | subWrIvToWr target _ _
  | bitwiseWrWrToWr target _ | bitwiseWrIvToWr target _ _ _ => exact ⟨by cases target <;> rfl, rfl⟩

theorem setOffset (reg : CReg) (v : Word) : (s.set reg v).wo = s.wo := by
  cases reg <;> rfl

theorem nearRun {o : CObject} {reg : CReg} {shift : Bool} (inside : o.stop < 128) (s : State) :
    (exec env s (loadBits reg shift o)).wo = s.wo ∧
      (reads s (loadBits reg shift o)).toList = [⟨s.wo, o.start, o.stop, some o⟩] := by
  have none : addWo o = 0 := if_neg (by omega)
  unfold loadBits
  rw [none]
  exact ⟨setOffset _ _, rfl⟩

theorem farRun {o : CObject} {reg : CReg} {shift : Bool} (sized : Sized o) (beyond : 128 ≤ o.stop) (s : State) :
    (execAll env s [.addSvToWo (addWo o), .nop, loadBits reg shift o, .loadSvToWo 0]).wo = 0 ∧
      ∃ r : Read, readsAll env s [.addSvToWo (addWo o), .nop, loadBits reg shift o, .loadSvToWo 0] = [r] ∧
        r.field = some o ∧ r.bits = Read.bits ⟨s.wo, o.start, o.stop, some o⟩ := by
  obtain ⟨ordered, short, _⟩ := sized
  have count : addWo o = (o.stop - 128) / 8 + 1 := if_pos beyond
  refine ⟨rfl, _, rfl, rfl, ?_⟩
  exact bitsMoved s.wo (some o) (by omega) ordered

structure Reading (env : Env) (s : State) (code : List CInstruction) (l : List CObject) : Prop where
  offset : (Far l → (execAll env s code).wo = 0) ∧ (¬ Far l → (execAll env s code).wo = s.wo)
  relative : s.wo = 0 ∨ ¬ Far l → ∀ r ∈ readsAll env s code, r.Relative s.wo
  first : ∀ wo, (∀ r ∈ readsAll env s code, r.Relative wo) → l ≠ [] → s.wo = wo
  nothing : l = [] → readsAll env s code = []

theorem reading (handles : Handles stores code l) : (∀ o ∈ l, Sized o) → ∀ s, Reading env s code l := by
  induction handles with
  | nil =>
    intro _ s
    have none : ¬ Far [] := by rintro ⟨o, ⟨⟩, _⟩
    exact ⟨⟨fun far => absurd far none, fun _ => rfl⟩, fun _ r member => (by cases member),
      fun _ _ some_ => absurd rfl some_,
      fun _ => rfl⟩
  | @other i code l plain _ later =>
    intro sized s
    obtain ⟨kept, silent⟩ := @neutralExec env _ _ plain s
    obtain ⟨offset, relative, first, nothing⟩ := later sized (exec env s i)
    have reads : readsAll env s (i :: code) = readsAll env (exec env s i) code := by
      rw [readsAll, silent]
      rfl
    rw [kept] at offset relative first
    refine ⟨offset, ?_, ?_, ?_⟩ <;> rw [reads]
    · exact relative
    · exact first
    · exact nothing
  | @near o reg shift code l inside _ later =>
    intro sized s
    obtain ⟨kept, here⟩ := @nearRun env _ reg shift inside s
    obtain ⟨offset, relative, first, nothing⟩ := later (fun o member => sized o (List.mem_cons_of_mem _ member))
      (exec env s (loadBits reg shift o))
    have reads : readsAll env s (loadBits reg shift o :: code) =
        ⟨s.wo, o.start, o.stop, some o⟩ :: readsAll env (exec env s (loadBits reg shift o)) code := by
      rw [readsAll, here]
      rfl
    have same : Far (o :: l) ↔ Far l := by
      constructor
      · rintro ⟨o', member, beyond⟩
        rcases List.mem_cons.mp member with rfl | rest
        · omega
        · exact ⟨o', rest, beyond⟩
      · rintro ⟨o', member, beyond⟩
        exact ⟨o', List.mem_cons_of_mem _ member, beyond⟩
    rw [kept] at offset relative first
    rw [← same] at offset relative
    refine ⟨offset, fun fits r member => ?_, fun wo all _ => ?_, fun empty => by cases empty⟩
    · rw [reads] at member
      rcases List.mem_cons.mp member with rfl | rest
      · rintro o' ⟨⟩
        rfl
      · exact relative fits r rest
    · have head := all _ (by rw [reads]; exact List.mem_cons_self) o rfl
      exact bitsBase (sized o List.mem_cons_self).1 head
  | @far o reg shift code l beyond _ later =>
    intro sized s
    obtain ⟨zero, r, here, field, bits⟩ := @farRun env _ reg shift (sized o List.mem_cons_self)
      beyond s
    obtain ⟨offset, relative, first, nothing⟩ := later (fun o member => sized o (List.mem_cons_of_mem _ member))
      (execAll env s [.addSvToWo (addWo o), .nop, loadBits reg shift o, .loadSvToWo 0])
    have parts : .addSvToWo (addWo o) :: .nop :: loadBits reg shift o :: .loadSvToWo 0 :: code =
        [.addSvToWo (addWo o), .nop, loadBits reg shift o, .loadSvToWo 0] ++ code := rfl
    have reads := @readsAllAppend env [.addSvToWo (addWo o), .nop, loadBits reg shift o, .loadSvToWo 0] code s
    rw [here] at reads
    have head : r.Relative s.wo := by
      intro o' isField
      rw [field] at isField
      cases isField
      exact bits
    rw [zero] at offset relative
    rw [parts]
    refine ⟨⟨fun _ => ?_, fun no => absurd ⟨o, List.mem_cons_self, beyond⟩ no⟩, fun fits r' member => ?_,
      fun wo all _ => ?_, fun empty => by cases empty⟩
    · rw [execAllAppend]
      by_cases more : Far l
      · exact offset.1 more
      · exact offset.2 more
    · have here' := fits.resolve_right fun no => no ⟨o, List.mem_cons_self, beyond⟩
      rw [reads] at member
      rcases List.mem_cons.mp member with rfl | rest
      · exact head
      · rw [here']
        exact relative (.inl rfl) r' rest
    · have first := all r (by rw [reads]; exact List.mem_cons_self) o field
      exact bitsBase (sized o List.mem_cons_self).1 (bits.symm.trans first)

theorem Loads.reading (loads : Loads stores code e) (parsed : Parsed e) (env : Env) (s : State) :
    Reading env s code (fields e) := by
  obtain ⟨l, handles, are⟩ := loads
  have sized (o : CObject) (member : o ∈ l) : Sized o := fieldsSized parsed o ((are o).mp member)
  have far : Far l ↔ Far (fields e) := by
    unfold Far
    simp only [are]
  have empty : l = [] ↔ fields e = [] := by
    rw [List.eq_nil_iff_forall_not_mem, List.eq_nil_iff_forall_not_mem]
    simp only [are]
  obtain ⟨offset, relative, first, nothing⟩ := @SoftCode.reading _ env _ _ handles sized s
  rw [far] at offset relative
  exact ⟨offset, relative, fun wo all some_ => first wo all fun none => some_ (empty.mp none),
    fun none => nothing (empty.mpr none)⟩

theorem Reading.after {l : List CObject} (reading : Reading env s code l) (zero : s.wo = 0) :
    (execAll env s code).wo = 0 := by
  by_cases far : Far l
  · exact reading.offset.1 far
  · exact (reading.offset.2 far).trans zero

end Running

section Operands

variable {oc sc ic before : List CInstruction} {sr ir : CReg}

structure OffsetRead (env : Env) (s : State) (oc : List CInstruction) (offset : CENode) (c : CCode) : Prop where
  straight : Straight oc
  added : (Far (fields offset) → (execAll env s oc).wo = value env (processExpression offset none false c) s) ∧
    (¬ Far (fields offset) → (execAll env s oc).wo = s.wo + value env (processExpression offset none false c) s)
  relative : s.wo = 0 → ∀ r ∈ readsAll env s oc, r.Relative 0

theorem offsetRead (parsed : Parsed offset) (fresh : c.chksumStored = false)
    (made : processOffset offset (processExpression offset none false) c.busy = some (oc, c.busy)) (env : Env) (s : State) :
    OffsetRead env s oc offset c.busy := by
  unfold processOffset at made
  split at made
  · next zero =>
    cases made
    cases offset with
    | intConst v =>
      cases zero
      have none : value env (processExpression (.intConst 0) none false c.busy) s = 0 := by
        change (0 : Word) <<< _ ||| 0 = 0
        simp
      refine ⟨by simp [Straight], ⟨fun ⟨o, member, _⟩ => (by cases member), fun _ => ?_⟩,
        fun _ r member => by cases member⟩
      rw [none]
      exact (BitVec.add_zero _).symm
    | objRef _ | dyadic _ _ _ | monadic _ _ => cases zero
  · obtain ⟨⟨code, reg, c₁⟩, first, parts⟩ := Option.map_eq_some_iff.mp made
    cases parts
    obtain ⟨_, loads, _⟩ := operandMade (c := c.busy) parsed fresh busyUsed first
    have read := loads.reading parsed env s
    have result : value env (processExpression offset none false c.busy) s = (execAll env s code).get reg := by
      rw [first]
      rfl
    obtain ⟨l, handles, _⟩ := loads
    have offset_ : (execAll env s (code ++ [.addWoByWr reg])).wo =
        (execAll env s code).wo + (execAll env s code).get reg := by
      rw [execAllAppend]
      rfl
    refine ⟨handles.straight.append (by simp [Straight, CInstruction.straight]), ⟨fun far => ?_, fun near => ?_⟩,
      fun zero r member => ?_⟩
    · rw [offset_, read.offset.1 far, result]
      exact BitVec.zero_add _
    · rw [offset_, read.offset.2 near, result]
    · rw [readsAllAppend] at member
      have here : r ∈ readsAll env s code := (List.mem_append.mp member).elim id fun last => by cases last
      have all := read.relative (.inl zero) r here
      rwa [zero] at all

def prologue (oc sc ic : List CInstruction) (sr ir : CReg) : List CInstruction :=
  oc ++ sc ++ [storeWr (gpr2Object 5 5) sr] ++ ic ++ [storeWr (gpr2Object 6 7) ir]

theorem storeStraight (o : CObject) (reg : CReg) : Straight [storeWr o reg] := by
  simp [Straight, storeWr, CInstruction.straight]

theorem prologueStraight (first : Straight oc) (second : Straight sc) (third : Straight ic) :
    Straight (prologue oc sc ic sr ir) :=
  (((first.append second).append (storeStraight _ _)).append third).append (storeStraight _ _)

theorem checksumRun {front rest : List CInstruction} (plain : Straight front) (plainRest : Straight rest) (n : Nat)
    (s : State) :
    ∃ es s',
      Ends env (front ++ loop n ++ rest) s (readsAll env s front ++ es ++ readsAll env s' rest) (execAll env s' rest) ∧
      (∀ r ∈ es, r.field = none) ∧ s'.wo = 0 ∧
      s'.wr0 = ((pairs (counted env (execAll env s front).wo (execAll env s front).left.toNat)).foldl OnesComplement.add
        (execAll env s front).sum).setWidth 64 := by
  have at_ : Placed (front ++ loop n ++ rest) n rest := by
    rw [List.append_assoc]
    exact placed plain n rest
  have first := @straightLeads env (front ++ loop n ++ rest) _ (loop n ++ rest) plain s
  have name : Leads env (front ++ loop n ++ rest) (loop n ++ rest, execAll env s front) []
      ((loop n).drop 1 ++ rest, execAll env s front) := labelStep n
  obtain ⟨s', ⟨es, quiet, turns⟩, zero, result⟩ := @loopRun env _ _ _ at_ _ (execAll env s front) rfl
  have last := @straightLeads env (front ++ loop n ++ rest) _ [] plainRest s'
  rw [List.append_nil] at last
  refine ⟨es, s', ?_, quiet, zero, result⟩
  have all := (first.then name).then (turns.then last)
  rw [List.append_nil, ← List.append_assoc, ← List.append_assoc] at all
  exact all

end Operands
end Flexbuild.SoftCode
