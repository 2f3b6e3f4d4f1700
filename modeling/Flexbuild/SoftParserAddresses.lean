import Flexbuild.SoftParserCoding

/-! Where the labels of a program lie. The program counter advances by what an action announces and
the buffer grows by what it stores; the two are the same number for every instruction, so a label
stands for the place of the words that follow it. -/
namespace Flexbuild.SoftParser

variable {base : Nat} {s : Statement} {statements : List Statement} {ctx next : Context}
variable {table : List (String × Nat)} {name : String}

def Statement.codings : Statement → List Coding
  | .label _ => [labelCoding]
  | .defineVariable => []
  | .raw words => [rawInstructionAction words]
  | .operation op => op.code.toList

def Statement.size (s : Statement) : Nat := (s.codings.map Coding.numValidHwWords).sum

def wordCount (statements : List Statement) : Nat := (statements.map Statement.size).sum

theorem wordCountCons (s : Statement) (rest : List Statement) :
    wordCount (s :: rest) = s.size + wordCount rest := by
  simp [wordCount]

structure Reduced (ctx : Context) (s : Statement) (next : Context) : Prop where
  counter : next.nextProgramCounter = ctx.nextProgramCounter + s.size
  listed : next.instructionList.map Instruction.coding =
    ctx.instructionList.map Instruction.coding ++ s.codings
  accepted : ∀ op, s = .operation op → op.code ≠ none
  named : next.labelTable = ctx.labelTable ∧ (∀ name, s ≠ .label name) ∨
    ∃ name, s = .label name ∧ ctx.labelTable.lookup name = none ∧
      next.labelTable = (name, ctx.nextProgramCounter) :: ctx.labelTable

theorem newInstructionSound {c : Coding} (sound : c.Sound) (ctx : Context) :
    (newInstruction c ctx).nextProgramCounter = ctx.nextProgramCounter + c.numValidHwWords := by
  simp only [newInstruction, if_neg sound.type, sound.advance]

theorem reduced (step : reduce ctx s = some next) : Reduced ctx s next := by
  cases s with
  | label name =>
    simp only [reduce, labelAction] at step
    split at step
    · cases step
    · rename_i fresh
      cases Option.some.inj step
      refine ⟨?_, ?_, by simp, .inr ⟨name, rfl, Option.not_isSome_iff_eq_none.mp fresh, rfl⟩⟩
      · simp [newInstruction, labelCoding, Statement.size, Statement.codings]
      · simp [newInstruction, Statement.codings]
  | defineVariable =>
    cases Option.some.inj step
    exact ⟨by simp [Statement.size, Statement.codings], by simp [Statement.codings], by simp,
      .inl ⟨rfl, by simp⟩⟩
  | raw raw =>
    cases Option.some.inj step
    refine ⟨?_, by simp [newInstruction, Statement.codings], by simp, .inl ⟨rfl, by simp⟩⟩
    rw [newInstructionSound (rawSound raw)]
    simp [Statement.size, Statement.codings]
  | operation op =>
    obtain ⟨c, coded, last⟩ := Option.map_eq_some_iff.mp step
    subst last
    refine ⟨?_, by simp [newInstruction, Statement.codings, coded], ?_, .inl ⟨rfl, by simp⟩⟩
    · rw [newInstructionSound (codeSound coded)]
      simp [Statement.size, Statement.codings, coded]
    · intro op' same
      cases same
      simp [coded]

structure Parsed (ctx : Context) (statements : List Statement) (next : Context) : Prop where
  listed : next.instructionList.map Instruction.coding =
    ctx.instructionList.map Instruction.coding ++ statements.flatMap Statement.codings
  accepted : ∀ op, .operation op ∈ statements → op.code ≠ none
  kept : ∀ name pc, ctx.labelTable.lookup name = some pc → next.labelTable.lookup name = some pc
  labels : ∀ front name back, statements = front ++ .label name :: back →
    next.labelTable.lookup name = some (ctx.nextProgramCounter + wordCount front)
  placed : ∀ name pc, next.labelTable.lookup name = some pc →
    ctx.labelTable.lookup name = some pc ∨
      ∃ front back, statements = front ++ .label name :: back ∧
        pc = ctx.nextProgramCounter + wordCount front

theorem lookupNew {pc : Nat} (other : String) :
    List.lookup other ((name, pc) :: table) =
      if other = name then some pc else table.lookup other := by
  rw [List.lookup_cons]
  by_cases same : other = name
  · simp [same]
  · rw [beq_false_of_ne same, if_neg same]

theorem Reduced.kept (one : Reduced ctx s next) {pc : Nat}
    (old : ctx.labelTable.lookup name = some pc) : next.labelTable.lookup name = some pc := by
  obtain ⟨same, _⟩ | ⟨new, _, fresh, grown⟩ := one.named
  · rw [same, old]
  · have other : name ≠ new := by
      rintro rfl
      rw [fresh] at old
      cases old
    rw [grown, lookupNew, if_neg other, old]

theorem Reduced.found (one : Reduced ctx s next) {pc : Nat}
    (new : next.labelTable.lookup name = some pc) :
    ctx.labelTable.lookup name = some pc ∨ s = .label name ∧ pc = ctx.nextProgramCounter := by
  obtain ⟨same, _⟩ | ⟨added, label, _, grown⟩ := one.named
  · exact .inl (by rw [← same, new])
  · rw [grown, lookupNew] at new
    split at new
    · rename_i here
      subst here
      exact .inr ⟨label, (Option.some.inj new).symm⟩
    · exact .inl new

theorem Reduced.labelled (one : Reduced ctx (.label name) next) :
    next.labelTable.lookup name = some ctx.nextProgramCounter := by
  obtain ⟨_, other⟩ | ⟨added, label, _, grown⟩ := one.named
  · exact absurd rfl (other name)
  · cases label
    rw [grown, List.lookup_cons_self]

theorem parsed (run : yyparse ctx statements = (next, false)) : Parsed ctx statements next := by
  induction statements generalizing ctx with
  | nil =>
    cases run
    exact ⟨by simp, by simp, fun _ _ => id, by simp, fun _ _ => .inl⟩
  | cons s rest ih =>
    simp only [yyparse] at run
    split at run
    · cases run
    rename_i middle step
    have one := reduced step
    have later := ih run
    refine ⟨?_, ?_, fun _ _ old => later.kept _ _ (one.kept old), ?_, ?_⟩
    · rw [later.listed, one.listed, List.flatMap_cons, List.append_assoc]
    · intro op member
      rcases List.mem_cons.mp member with here | inside
      · exact one.accepted op here.symm
      · exact later.accepted op inside
    · intro front name back split
      cases front with
      | nil =>
        obtain ⟨rfl, rfl⟩ := List.cons.inj split
        exact later.kept _ _ one.labelled
      | cons first front =>
        obtain ⟨rfl, inside⟩ := List.cons.inj split
        rw [later.labels front name back inside, one.counter, wordCountCons, Nat.add_assoc]
    · intro name pc found
      rcases later.placed name pc found with here | ⟨front, back, inside, count⟩
      · rcases one.found here with old | ⟨label, count⟩
        · exact .inl old
        · exact .inr ⟨[], rest, by rw [label]; rfl, by simp [count, wordCount]⟩
      · refine .inr ⟨s :: front, back, by rw [inside]; rfl, ?_⟩
        rw [count, one.counter, wordCountCons, Nat.add_assoc]

def Statement.coded (table : List (String × Nat)) (s : Statement) : List Nat :=
  s.codings.flatMap fun c => ((processInstruction table c).map emit).getD []

theorem processedAll {codings done : List Coding}
    (all : processInstructions table codings = some done) :
    done.flatMap emit =
        codings.flatMap (fun c => ((processInstruction table c).map emit).getD []) ∧
      (∀ c ∈ codings, ∃ d, processInstruction table c = some d) ∧
      totalDataBytes done = 2 * (codings.map Coding.numValidHwWords).sum := by
  induction codings generalizing done with
  | nil =>
    cases all
    simp [totalDataBytes]
  | cons c codings ih =>
    simp only [processInstructions, List.mapM_cons, bind, Option.bind_eq_some_iff] at all
    obtain ⟨d, one, rest, later, last⟩ := all
    cases Option.some.inj last
    obtain ⟨words, found, bytes⟩ := ih later
    refine ⟨by simp [words, one], ?_, ?_⟩
    · intro x member
      rcases List.mem_cons.mp member with rfl | inside
      · exact ⟨d, one⟩
      · exact found x inside
    · unfold totalDataBytes at bytes ⊢
      rw [List.map_cons, List.sum_cons, bytes, List.map_cons, List.sum_cons, processedSize one,
        Nat.mul_add]

structure Assembled (base : Nat) (statements : List Statement) (out : Output) : Prop where
  low : 0x20 ≤ base
  room : base + wordCount statements ≤ 0x400
  accepted : ∀ op, .operation op ∈ statements → op.code ≠ none
  processed : ∀ s ∈ statements, ∀ c ∈ s.codings, ∃ d, processInstruction out.labelList c = some d
  buffer : out.buffer = List.replicate (base - 0x20) 0 ++
    statements.flatMap (Statement.coded out.labelList) ++
      List.replicate (0x400 - base - wordCount statements) 0
  labels : ∀ front name back, statements = front ++ .label name :: back →
    out.labelList.lookup name = some (base + wordCount front)
  placed : ∀ name pc, out.labelList.lookup name = some pc →
    ∃ front back, statements = front ++ .label name :: back ∧ pc = base + wordCount front

theorem wordCountCodings (statements : List Statement) :
    ((statements.flatMap Statement.codings).map Coding.numValidHwWords).sum =
      wordCount statements := by
  induction statements with
  | nil => rfl
  | cons s rest ih =>
    rw [List.flatMap_cons, List.map_append, List.sum_append, ih, wordCountCons, Statement.size]

theorem codedLength (processed : ∀ s ∈ statements, ∀ c ∈ s.codings,
      ∃ d, processInstruction table c = some d) :
    (statements.flatMap (Statement.coded table)).length = wordCount statements := by
  have one : ∀ codings : List Coding, (∀ c ∈ codings, ∃ d, processInstruction table c = some d) →
      (codings.flatMap fun c => ((processInstruction table c).map emit).getD []).length =
        (codings.map Coding.numValidHwWords).sum := by
    intro codings done
    induction codings with
    | nil => rfl
    | cons c codings ih =>
      obtain ⟨d, here⟩ := done c List.mem_cons_self
      rw [List.flatMap_cons, List.length_append, ih fun x inside => done x (.tail _ inside), here,
        List.map_cons, List.sum_cons, Option.map_some, Option.getD_some, emitLength,
        processedSize here]
  induction statements with
  | nil => rfl
  | cons s rest ih =>
    rw [List.flatMap_cons, List.length_append, ih fun x inside => processed x (.tail _ inside),
      wordCountCons, Statement.coded, one s.codings (processed s List.mem_cons_self),
      Statement.size]

theorem assembled {source : Source} {out : Output} (ok : assemble base source = .ok out) :
    Assembled base source.statements out := by
  unfold assemble at ok
  split at ok
  · cases ok
  rename_i range
  generalize parse : yyparse ⟨base, [], []⟩ source.statements = run at ok
  obtain ⟨ctx, failed⟩ := run
  dsimp only at ok
  split at ok
  · cases ok
  rename_i codings all
  split_ifs at ok with long bad
  cases ok
  have clean : failed = false := by
    rw [Bool.or_eq_true, not_or] at bad
    exact Bool.eq_false_iff.mpr bad.1
  subst clean
  have run := parsed parse
  rw [run.listed] at all
  obtain ⟨words, found, bytes⟩ := processedAll all
  rw [List.map_nil, List.nil_append] at words found bytes
  rw [bytes, wordCountCodings] at long
  have processed : ∀ s ∈ source.statements, ∀ c ∈ s.codings,
      ∃ d, processInstruction ctx.labelTable c = some d :=
    fun s member c inside => found c (List.mem_flatMap.mpr ⟨s, member, inside⟩)
  have flat : codings.flatMap emit = source.statements.flatMap (Statement.coded ctx.labelTable) := by
    rw [words, List.flatMap_assoc]
    rfl
  refine ⟨by omega, by omega, run.accepted, processed, ?_, run.labels, ?_⟩
  · have length := codedLength processed
    simp only [saveInstructions, flat, length]
    congr 2
    omega
  · intro name pc here
    rcases run.placed name pc here with old | placed
    · cases old
    · exact placed

def Ordinary (name : String) : Prop := reservedLabels.lookup name = none

instance : Decidable (Ordinary name) :=
  inferInstanceAs (Decidable (reservedLabels.lookup name = none))

def Output.words (out : Output) (part : List Statement) : List Nat :=
  part.flatMap (Statement.coded out.labelList)

structure AddressesRight (base : Nat) (statements : List Statement) (out : Output) : Prop where
  laid : out.words statements <+: out.buffer.drop (base - 0x20)
  advance : ∀ s ∈ statements, ∀ c ∈ s.codings, c.type ≠ .label →
    1 + c.numImmediateValues = c.numValidHwWords
  labels : ∀ front name back, statements = front ++ .label name :: back →
    out.labelList.lookup name = some (base + (out.words front).length)
  targets : ∀ front op back, statements = front ++ .operation op :: back →
    ∀ (k : Nat) name, op.targets[k]? = some name → Ordinary name →
      ∃ before after stored, statements = before ++ .label name :: after ∧
        (op.addresses (out.buffer.drop (base - 0x20 + (out.words front).length)))[k]? = some stored ∧
        stored = base + (out.words before).length ∧
        out.words after <+: out.buffer.drop (stored - 0x20) ∧ stored ≠ 0x3fe ∧ stored ≠ 0x3ff

def TargetsBelowExits (base : Nat) (statements : List Statement) : Prop :=
  ∀ op, .operation op ∈ statements → ∀ name ∈ op.targets, Ordinary name →
    ∀ front back, statements = front ++ .label name :: back → base + wordCount front < 0x3fe

theorem codingsAdvance {c : Coding} (member : c ∈ s.codings) (other : c.type ≠ .label) :
    1 + c.numImmediateValues = c.numValidHwWords := by
  cases s with
  | label name =>
    cases List.mem_singleton.mp member
    exact absurd rfl other
  | defineVariable => cases member
  | raw words =>
    cases List.mem_singleton.mp member
    exact (rawSound words).advance
  | operation op => exact (codeSound (Option.mem_toList.mp member)).advance

theorem labelWords (out : Output) (after : List Statement) :
    out.words (.label name :: after) = out.words after := rfl

section Assembled
variable {out : Output} (whole : Assembled base statements out)
include whole

theorem Assembled.length {front back : List Statement} (split : statements = front ++ back) :
    (out.words front).length = wordCount front :=
  codedLength fun s member => whole.processed s (by rw [split]; exact List.mem_append_left _ member)

theorem Assembled.tail {front back : List Statement} (split : statements = front ++ back) :
    out.buffer.drop (base - 0x20 + (out.words front).length) =
      out.words back ++ List.replicate (0x400 - base - wordCount statements) 0 := by
  rw [whole.buffer, split, List.flatMap_append, List.append_assoc, List.append_assoc,
    ← List.drop_drop, List.drop_append_of_le_length (by simp), List.drop_replicate, Nat.sub_self,
    List.replicate_zero, List.nil_append, Output.words, List.drop_left]
  rfl

theorem Assembled.address (ordinary : Ordinary name) {type : InstructionType}
    {pc : Nat} (found : programCounterOf out.labelList type name = some pc) :
    ∃ front back, statements = front ++ .label name :: back ∧ pc = base + wordCount front := by
  unfold programCounterOf at found
  rw [ordinary] at found
  split at found
  · rename_i reserved
    cases reserved
  · exact whole.placed name pc found

theorem Assembled.stored {front back : List Statement} {op : Operation String}
    (split : statements = front ++ .operation op :: back) :
    ∃ type, op.addresses (out.buffer.drop (base - 0x20 + (out.words front).length)) =
        op.targets.map (SoftParser.address out.labelList type) ∧
      ∀ name ∈ op.targets, ∃ pc, programCounterOf out.labelList type name = some pc := by
  have member : .operation op ∈ statements := by simp [split]
  obtain ⟨c, coded⟩ := Option.ne_none_iff_exists'.mp (whole.accepted op member)
  have listed : (Statement.operation op).codings = [c] := by simp [Statement.codings, coded]
  obtain ⟨d, done⟩ := whole.processed _ member c (by simp [listed])
  have here : Statement.coded out.labelList (.operation op) = emit d := by
    simp [Statement.coded, listed, done]
  have words : out.words (.operation op :: back) = emit d ++ out.words back := by
    rw [Output.words, List.flatMap_cons, here]
    rfl
  refine ⟨c.type, ?_⟩
  rw [whole.tail split, words, List.append_assoc]
  exact addressesStored coded done _

end Assembled

theorem rightBelow {out : Output} (whole : Assembled base statements out)
    (right : AddressesRight base statements out) : TargetsBelowExits base statements := by
  intro op member name target ordinary front back split
  obtain ⟨before, after, place⟩ := List.append_of_mem member
  obtain ⟨k, here⟩ := List.mem_iff_getElem?.mp target
  obtain ⟨first, last, stored, labelled, field, exact, _, notReturn, notEnd⟩ :=
    right.targets before op after place k name here ordinary
  have same : base + wordCount front = stored := by
    have one := right.labels front name back split
    rw [right.labels first name last labelled, ← exact] at one
    rw [← whole.length split]
    exact (Option.some.inj one).symm
  obtain ⟨type, addresses, _⟩ := whole.stored place
  rw [addresses, List.getElem?_map, here] at field
  have masked : address out.labelList type name ≤ 0x3ff := Nat.and_le_right
  cases Option.some.inj field
  omega

theorem belowRight {out : Output} (whole : Assembled base statements out)
    (below : TargetsBelowExits base statements) : AddressesRight base statements out := by
  refine ⟨?_, fun s _ c => codingsAdvance, ?_, ?_⟩
  · have start := whole.tail (List.nil_append statements).symm
    rw [show (out.words []).length = 0 from rfl, Nat.add_zero] at start
    rw [start]
    exact List.prefix_append _ _
  · intro front name back split
    rw [whole.labels front name back split, whole.length split]
  · intro front op back split k name here ordinary
    have target := List.mem_of_getElem? here
    obtain ⟨type, addresses, found⟩ := whole.stored split
    obtain ⟨pc, resolved⟩ := found name target
    obtain ⟨before, after, place, count⟩ := whole.address ordinary resolved
    have low := below op (by simp [split]) name target ordinary before after place
    have length := whole.length place
    refine ⟨before, after, pc, place, ?_, by omega, ?_, by omega, by omega⟩
    · rw [addresses, List.getElem?_map, here, Option.map_some, address, resolved,
        Option.getD_some, Nat.and_two_pow_sub_one_of_lt_two_pow (n := 10) (by omega)]
    · have same : pc - 0x20 = base - 0x20 + (out.words before).length := by
        have := whole.low
        omega
      rw [same, whole.tail place, labelWords]
      exact List.prefix_append _ _

theorem addressesRight {source : Source} {out : Output} (ok : assemble base source = .ok out) :
    AddressesRight base source.statements out ↔ TargetsBelowExits base source.statements :=
  ⟨rightBelow (assembled ok), belowRight (assembled ok)⟩

theorem shortBelow (short : base + wordCount statements < 0x3fe) :
    TargetsBelowExits base statements := by
  intro op _ name _ _ front back split
  have part : wordCount statements = wordCount front + wordCount (.label name :: back) := by
    simp [split, wordCount]
  omega

def forwardJump : Source := ⟨[.operation (.jump false "L"), .operation .nop, .label "L"], false⟩

theorem addressesRightForward :
    ∃ out, assemble 0x20 forwardJump = .ok out ∧
      AddressesRight 0x20 forwardJump.statements out :=
  ⟨_, rfl, (@addressesRight 0x20 forwardJump _ rfl).mpr (shortBelow (by decide))⟩

def exitLoop : Source := ⟨[.label "L", .operation (.jump false "L")], false⟩

theorem exitTaken :
    ∃ out, assemble 0x3fe exitLoop = .ok out ∧ ¬ AddressesRight 0x3fe exitLoop.statements out := by
  refine ⟨_, rfl, fun right => ?_⟩
  have below := rightBelow (@assembled 0x3fe exitLoop _ rfl) right
  have low := below (.jump false "L") (by simp [exitLoop]) "L" (by simp [Operation.targets])
    (by decide) [] [.operation (.jump false "L")] rfl
  exact absurd low (by decide)

end Flexbuild.SoftParser
