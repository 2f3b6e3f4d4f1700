import Mathlib.Data.List.Nodup
import Flexbuild.SoftIrCreated

/-! The labels of what is created: each name is counted anew, so that all are distinct, and every
jump goes to one of them. -/
namespace Flexbuild.SoftIr
open Numerals Traces

structure Names (n k : Nat) (names : List Text) : Prop where
  counted : n ≤ k
  distinct : names.Nodup
  issued : ∀ name ∈ names, ∃ i, n < i ∧ i ≤ k ∧ name = uniqueName i

section Names

variable {n m k : Nat} {a b : List Text}

theorem namesNone (n : Nat) : Names n n [] :=
  ⟨Nat.le_refl n, List.nodup_nil, fun _ mem => absurd mem List.not_mem_nil⟩

theorem namesOne (n : Nat) : Names n (n + 1) [uniqueName (n + 1)] := by
  refine ⟨Nat.le_succ n, List.nodup_singleton _, ?_⟩
  intro name mem
  exact ⟨n + 1, Nat.lt_succ_self n, Nat.le_refl _, List.mem_singleton.mp mem⟩

theorem namesAppend (first : Names n m a) (second : Names m k b) : Names n k (a ++ b) := by
  refine ⟨Nat.le_trans first.counted second.counted, ?_, ?_⟩
  · rw [List.nodup_append']
    refine ⟨first.distinct, second.distinct, ?_⟩
    intro name left right
    obtain ⟨i, -, le, rfl⟩ := first.issued name left
    obtain ⟨j, lt, -, same⟩ := second.issued _ right
    have := uniqueNameInj same
    omega
  · intro name mem
    rcases List.mem_append.mp mem with mem | mem
    · obtain ⟨i, lt, le, same⟩ := first.issued name mem
      exact ⟨i, lt, Nat.le_trans le second.counted, same⟩
    · obtain ⟨i, lt, le, same⟩ := second.issued name mem
      exact ⟨i, Nat.lt_of_le_of_lt first.counted lt, le, same⟩

theorem namesPerm (names : Names n k a) (perm : a.Perm b) : Names n k b :=
  ⟨names.counted, perm.nodup_iff.mp names.distinct,
    fun name mem => names.issued name (perm.mem_iff.mpr mem)⟩

end Names

theorem labelsLabel (name : Text) (ss : List CStatement) :
    labels (.label name :: ss) = name :: labels ss := rfl

theorem labelsGoto (l : CLabel) (flags : CStatementFlags) (e : Option CENode) (ss : List CStatement) :
    labels (.goto l flags e :: ss) = labels ss := rfl

theorem labelsIfGoto (l : CLabel) (e : CENode) (ss : List CStatement) :
    labels (.ifGoto l e :: ss) = labels ss := rfl

theorem labelsIfNGoto (l : CLabel) (e : CENode) (ss : List CStatement) :
    labels (.ifNGoto l e :: ss) = labels ss := rfl

theorem targetsCons (c : CStatement) (ss : List CStatement) :
    targets (c :: ss) = c.targets ++ targets ss := rfl

def tableNames (table : List (Nat × CLabel)) : List Text := table.flatMap (fun c => c.2.names)

structure Accounts (count next : Nat) (code : List CStatement) (known : Text → Prop) : Prop where
  names : Names count next (labels code)
  aims : ∀ name ∈ targets code, name ∈ labels code ∨ known name

section Accounts

variable {count next middle : Nat} {code first second : List CStatement} {known : Text → Prop}
  {expr : CENode} {table table' : List (Nat × CLabel)} {tests executes : List CStatement}

theorem accountsNone (count : Nat) (known : Text → Prop) : Accounts count count [] known :=
  ⟨namesNone count, fun _ mem => absurd mem List.not_mem_nil⟩

theorem accountsPlain (plain : labels code = []) (aims : ∀ name ∈ targets code, known name) :
    Accounts count count code known :=
  ⟨by rw [plain]; exact namesNone count, fun name mem => .inr (aims name mem)⟩

theorem accountsAppend (one : Accounts count middle first known)
    (two : Accounts middle next second known) : Accounts count next (first ++ second) known := by
  refine ⟨by rw [labelsAppend]; exact namesAppend one.names two.names, ?_⟩
  intro name mem
  rw [targetsAppend, List.mem_append] at mem
  rw [labelsAppend, List.mem_append]
  rcases mem with mem | mem
  · exact (one.aims name mem).imp_left .inl
  · exact (two.aims name mem).imp_left .inr

theorem flushNames (expr : CENode) (table : List (Nat × CLabel)) :
    labels (flushTable expr table) = [] ∧
      ∀ name ∈ targets (flushTable expr table), name ∈ tableNames table := by
  unfold flushTable
  split
  · exact ⟨rfl, fun _ mem => absurd mem List.not_mem_nil⟩
  · refine ⟨rfl, ?_⟩
    intro name mem
    rw [targetsCons, targets, List.flatMap_nil, List.append_nil] at mem
    exact mem

theorem testAccounts {value : Word} {maxValue : Option CENode} {last : Bool}
    (made : createIRTest expr table count value maxValue last = .ok (tests, table', next)) :
    Accounts count next tests (fun name => name = uniqueName count ∨ name ∈ tableNames table) ∧
      ∀ name ∈ tableNames table', name = uniqueName count ∨ name ∈ tableNames table := by
  obtain ⟨plain, flushed⟩ := flushNames expr table
  have added : ∀ {v : Nat}, ∀ name ∈ tableNames (table ++ [(v, .named (uniqueName count))]),
      name = uniqueName count ∨ name ∈ tableNames table := by
    intro v name mem
    rw [tableNames, List.flatMap_append, List.mem_append] at mem
    rcases mem with mem | mem
    · exact .inr mem
    · exact .inl (List.mem_singleton.mp mem)
  rcases createdTest made with ⟨-, rfl, rfl, rfl⟩ | ⟨-, most, -, rfl, rfl, rfl⟩ |
    ⟨-, -, rfl, ⟨rfl, -, rfl⟩ | ⟨rfl, rfl⟩⟩
  · refine ⟨accountsPlain ?_ ?_, fun _ mem => absurd mem List.not_mem_nil⟩
    · rw [labelsAppend, plain]
      rfl
    · intro name mem
      rw [targetsAppend, List.mem_append] at mem
      rcases mem with mem | mem
      · exact .inr (flushed name mem)
      · exact .inl (List.mem_singleton.mp mem)
  · refine ⟨⟨?_, ?_⟩, fun _ mem => absurd mem List.not_mem_nil⟩
    · rw [labelsAppend, plain]
      exact namesOne _
    · intro name mem
      rw [targetsAppend, List.mem_append] at mem
      rw [labelsAppend, plain]
      rcases mem with mem | mem
      · exact .inr (.inr (flushed name mem))
      · simp only [targets, List.flatMap_cons, List.flatMap_nil, CStatement.targets, CLabel.names,
          List.mem_append, List.mem_singleton, List.not_mem_nil, or_false] at mem
        rcases mem with rfl | rfl | rfl
        · exact .inl (List.mem_singleton.mpr rfl)
        · exact .inl (List.mem_singleton.mpr rfl)
        · exact .inr (.inl rfl)
  · exact ⟨accountsNone _ _, added⟩
  · refine ⟨accountsPlain rfl ?_, fun _ mem => absurd mem List.not_mem_nil⟩
    intro name mem
    rw [targetsCons, targets, List.flatMap_nil, List.append_nil] at mem
    exact added name mem

theorem accountsClosed (names : Names count next (labels code))
    (aims : ∀ name ∈ targets code, name ∈ labels code) : Accounts count next code known :=
  ⟨names, fun name mem => .inl (aims name mem)⟩

theorem accountsAims (accounts : Accounts count next code (fun _ => False)) {name : Text}
    (mem : name ∈ targets code) : name ∈ labels code :=
  (accounts.aims name mem).resolve_right id

theorem assignAccounts {name value : CENode} {fwoffset : Option CENode}
    (made : createIRExpression count (.assign name value fwoffset) = .ok (code, next)) :
    Accounts count next code known := by
  cases fwoffset with
  | none =>
    obtain ⟨rfl, rfl⟩ := createdAssign made
    exact accountsPlain rfl (fun _ mem => absurd mem List.not_mem_nil)
  | some offset =>
    obtain ⟨rfl, rfl, -⟩ := createdAssignOffset made
    exact accountsPlain rfl (fun _ mem => absurd mem List.not_mem_nil)

theorem ifAccounts {body : List CStatement}
    (inside : Accounts (count + 1) next body (fun _ => False)) :
    Accounts count next (.ifNGoto (.named (uniqueName (count + 1))) expr :: body ++
      [.label (uniqueName (count + 1))]) known := by
  refine accountsClosed ?_ ?_
  · rw [List.cons_append, labelsIfNGoto, labelsAppend]
    exact namesPerm (namesAppend (namesOne count) inside.names) List.perm_append_comm
  · intro name mem
    rw [List.cons_append, targetsCons, targetsAppend, List.mem_append, List.mem_append] at mem
    rw [List.cons_append, labelsIfNGoto, labelsAppend, List.mem_append]
    rcases mem with mem | mem | mem
    · exact .inr mem
    · exact .inl (accountsAims inside mem)
    · exact absurd mem List.not_mem_nil

theorem ifElseAccounts {others body : List CStatement}
    (no : Accounts (count + 1) middle others (fun _ => False))
    (yes : Accounts (middle + 1) next body (fun _ => False)) :
    Accounts count next (.ifGoto (.named (uniqueName (count + 1))) expr :: others ++
      .goto (.named (uniqueName (middle + 1))) .initial none ::
      .label (uniqueName (count + 1)) :: body ++ [.label (uniqueName (middle + 1))]) known := by
  have labels_ : labels (.ifGoto (.named (uniqueName (count + 1))) expr :: others ++
      .goto (.named (uniqueName (middle + 1))) .initial none ::
      .label (uniqueName (count + 1)) :: body ++ [.label (uniqueName (middle + 1))]) =
      labels others ++ (uniqueName (count + 1) :: labels body) ++ [uniqueName (middle + 1)] := by
    rw [labelsAppend, List.cons_append, labelsIfGoto, labelsAppend, labelsGoto, labelsLabel]
    rfl
  have perm : ([uniqueName (count + 1)] ++ labels others ++
      ([uniqueName (middle + 1)] ++ labels body)).Perm
      (labels others ++ (uniqueName (count + 1) :: labels body) ++ [uniqueName (middle + 1)]) := by
    refine (List.Perm.append List.perm_append_comm List.perm_append_comm).trans ?_
    rw [List.append_assoc, List.append_assoc, List.singleton_append, List.cons_append]
  refine accountsClosed ?_ ?_
  · rw [labels_]
    exact namesPerm (namesAppend (namesAppend (namesOne count) no.names)
      (namesAppend (namesOne middle) yes.names)) perm
  · intro name mem
    rw [labels_, List.mem_append, List.mem_append, List.mem_cons, List.mem_singleton]
    rw [targetsAppend, List.cons_append, targetsCons, targetsAppend, targetsCons, targetsCons,
      List.mem_append, List.mem_append, List.mem_append, List.mem_append, List.mem_append] at mem
    rcases mem with (mem | mem | mem | mem | mem) | mem
    · exact .inl (.inr (.inl (List.mem_singleton.mp mem)))
    · exact .inl (.inl (accountsAims no mem))
    · exact .inr (List.mem_singleton.mp mem)
    · exact absurd mem List.not_mem_nil
    · exact .inl (.inr (.inr (accountsAims yes mem)))
    · exact absurd mem List.not_mem_nil

theorem loopAccounts {body : List CStatement}
    (inside : Accounts (count + 2) next body (fun _ => False)) :
    Accounts count next (.label (uniqueName (count + 1)) ::
      .ifNGoto (.named (uniqueName (count + 2))) expr :: body ++
      [.goto (.named (uniqueName (count + 1))) .initial none, .label (uniqueName (count + 2))])
      known := by
  have labels_ : labels (.label (uniqueName (count + 1)) ::
      .ifNGoto (.named (uniqueName (count + 2))) expr :: body ++
      [.goto (.named (uniqueName (count + 1))) .initial none, .label (uniqueName (count + 2))]) =
      uniqueName (count + 1) :: (labels body ++ [uniqueName (count + 2)]) := by
    rw [List.cons_append, List.cons_append, labelsLabel, labelsIfNGoto, labelsAppend]
    rfl
  refine accountsClosed ?_ ?_
  · rw [labels_, ← List.singleton_append]
    refine namesPerm (namesAppend (namesOne count) (namesAppend (namesOne (count + 1)) inside.names)) ?_
    exact List.Perm.append_left _ List.perm_append_comm
  · intro name mem
    rw [labels_, List.mem_cons, List.mem_append, List.mem_singleton]
    rw [List.cons_append, List.cons_append, targetsCons, targetsCons, targetsAppend,
      List.mem_append, List.mem_append, List.mem_append] at mem
    rcases mem with mem | mem | mem | mem
    · exact absurd mem List.not_mem_nil
    · exact .inr (.inr (List.mem_singleton.mp mem))
    · exact .inr (.inl (accountsAims inside mem))
    · exact .inl (List.mem_singleton.mp mem)

structure CaseAccounts (finalL : Text) (table : List (Nat × CLabel)) (count next : Nat)
    (tests executes : List CStatement) : Prop where
  names : Names count next (labels tests ++ labels executes)
  aims : ∀ name ∈ targets tests ++ targets executes,
    name ∈ labels tests ++ labels executes ∨ name = finalL ∨ name ∈ tableNames table

theorem caseAccounts {finalL : Text} {test body others bodies : List CStatement} {a b : Nat}
    (tested : Accounts (count + 1) a test
      (fun name => name = uniqueName (count + 1) ∨ name ∈ tableNames table))
    (stored : ∀ name ∈ tableNames table', name = uniqueName (count + 1) ∨ name ∈ tableNames table)
    (inside : Accounts a b body (fun _ => False))
    (rest : CaseAccounts finalL table' b next others bodies) :
    CaseAccounts finalL table count next (test ++ others)
      (.label (uniqueName (count + 1)) :: body ++ .goto (.named finalL) .initial none :: bodies) := by
  have labels_ : labels (.label (uniqueName (count + 1)) :: body ++
      .goto (.named finalL) .initial none :: bodies) =
      uniqueName (count + 1) :: (labels body ++ labels bodies) := by
    rw [List.cons_append, labelsLabel, labelsAppend, labelsGoto]
  constructor
  · rw [labels_, labelsAppend]
    refine namesPerm (namesAppend (namesOne count) (namesAppend tested.names
      (namesAppend inside.names rest.names))) ?_
    rw [List.perm_iff_count]
    intro name
    simp only [List.count_append, List.count_cons, List.count_nil]
    omega
  · intro name mem
    rw [labels_, labelsAppend]
    rw [targetsAppend, List.cons_append, targetsCons, targetsAppend, targetsCons] at mem
    simp only [List.mem_append, List.mem_cons] at mem ⊢
    have later : name ∈ labels others ∨ name ∈ labels bodies ∨ name = finalL ∨
        name ∈ tableNames table' → ((name ∈ labels test ∨ name ∈ labels others) ∨
          name = uniqueName (count + 1) ∨ name ∈ labels body ∨ name ∈ labels bodies) ∨
        name = finalL ∨ name ∈ tableNames table := by
      rintro (mem | mem | final | mem)
      · exact .inl (.inl (.inr mem))
      · exact .inl (.inr (.inr (.inr mem)))
      · exact .inr (.inl final)
      · rcases stored name mem with own | mem
        · exact .inl (.inr (.inl own))
        · exact .inr (.inr mem)
    have restAims : name ∈ targets others ∨ name ∈ targets bodies →
        name ∈ labels others ∨ name ∈ labels bodies ∨ name = finalL ∨ name ∈ tableNames table' := by
      intro mem
      have aims := rest.aims name (List.mem_append.mpr mem)
      rwa [List.mem_append, or_assoc] at aims
    rcases mem with (mem | mem) | mem | mem | mem | mem
    · rcases tested.aims name mem with own | own | mem
      · exact .inl (.inl (.inl own))
      · exact .inl (.inr (.inl own))
      · exact .inr (.inr mem)
    · exact later (restAims (.inl mem))
    · exact absurd mem List.not_mem_nil
    · exact .inl (.inr (.inr (.inl (accountsAims inside mem))))
    · exact .inr (.inl (List.mem_singleton.mp mem))
    · exact later (restAims (.inr mem))

theorem switchAccounts {otherwise : List CStatement}
    (cases : CaseAccounts (uniqueName (count + 1)) [] (count + 1) middle tests executes)
    (default : Accounts middle next otherwise (fun _ => False)) :
    Accounts count next (tests ++ otherwise ++ .goto (.named (uniqueName (count + 1))) .initial none ::
      executes ++ [.label (uniqueName (count + 1))]) known := by
  have labels_ : labels (tests ++ otherwise ++
      .goto (.named (uniqueName (count + 1))) .initial none :: executes ++
        [.label (uniqueName (count + 1))]) =
      labels tests ++ labels otherwise ++ labels executes ++ [uniqueName (count + 1)] := by
    rw [labelsAppend, labelsAppend, labelsAppend, labelsGoto]
    rfl
  refine accountsClosed ?_ ?_
  · rw [labels_]
    refine namesPerm (namesAppend (namesOne count) (namesAppend cases.names default.names)) ?_
    rw [List.perm_iff_count]
    intro name
    simp only [List.count_append, List.count_cons, List.count_nil]
    omega
  · intro name mem
    rw [labels_]
    rw [targetsAppend, targetsAppend, targetsAppend, targetsCons] at mem
    simp only [List.mem_append, List.mem_singleton] at mem ⊢
    have inCases : name ∈ targets tests ∨ name ∈ targets executes →
        ((name ∈ labels tests ∨ name ∈ labels otherwise) ∨ name ∈ labels executes) ∨
          name = uniqueName (count + 1) := by
      intro mem
      have aims := cases.aims name (List.mem_append.mpr mem)
      rw [List.mem_append] at aims
      rcases aims with (mem | mem) | final | mem
      · exact .inl (.inl (.inl mem))
      · exact .inl (.inr mem)
      · exact .inr final
      · exact absurd mem List.not_mem_nil
    rcases mem with ((mem | mem) | mem | mem) | mem
    · exact inCases (.inl mem)
    · exact .inl (.inl (.inr (accountsAims default mem)))
    · exact .inr (List.mem_singleton.mp mem)
    · exact inCases (.inr mem)
    · exact absurd mem List.not_mem_nil

end Accounts

mutual

theorem expressionAccounts {count next : Nat} {code : List CStatement} {known : Text → Prop} :
    ∀ e : CExecuteExpression, createIRExpression count e = .ok (code, next) →
      Accounts count next code known
  | .assign _ _ _, made => assignAccounts made
  | .headerSize _, made => by
    obtain ⟨rfl, rfl⟩ := createdHeaderSize made
    exact accountsNone _ _
  | .inline_ _, made => by
    obtain ⟨rfl, rfl⟩ := createdInline made
    exact accountsPlain rfl (fun _ mem => absurd mem List.not_mem_nil)
  | .if_ _ none _, made => by
    rw [createIRExpression] at made
    cases made
  | .if_ _ (some ifTrue) none, made => by
    obtain ⟨body, bodyOk, rfl⟩ := createdIf made
    exact ifAccounts (expressionsAccounts ifTrue bodyOk)
  | .if_ _ (some ifTrue) (some ifFalse), made => by
    obtain ⟨others, middle, body, othersOk, bodyOk, rfl⟩ := createdIfElse made
    exact ifElseAccounts (expressionsAccounts ifFalse othersOk) (expressionsAccounts ifTrue bodyOk)
  | .loop _ loopBody, made => by
    obtain ⟨body, bodyOk, rfl⟩ := createdLoop made
    exact loopAccounts (expressionsAccounts loopBody bodyOk)
  | .switch _ cases none, made => by
    obtain ⟨-, tests, executes, middle, otherwise, casesOk, defaultOk, rfl⟩ := createdSwitch made
    obtain ⟨rfl, rfl⟩ := createdNil defaultOk
    exact switchAccounts (casesAccounts cases casesOk) (accountsNone _ _)
  | .switch _ cases (some default), made => by
    obtain ⟨-, tests, executes, middle, otherwise, casesOk, defaultOk, rfl⟩ := createdSwitch made
    exact switchAccounts (casesAccounts cases casesOk) (expressionsAccounts default defaultOk)

theorem expressionsAccounts {count next : Nat} {code : List CStatement} {known : Text → Prop} :
    ∀ es : List CExecuteExpression, createIRExpressions count es = .ok (code, next) →
      Accounts count next code known
  | [], made => by
    obtain ⟨rfl, rfl⟩ := createdNil made
    exact accountsNone _ _
  | e :: rest, made => by
    obtain ⟨one, middle, others, oneOk, othersOk, rfl⟩ := createdCons made
    exact accountsAppend (expressionAccounts e oneOk) (expressionsAccounts rest othersOk)

theorem casesAccounts {count next : Nat} {finalL : Text} {expr : CENode}
    {table : List (Nat × CLabel)} {tests executes : List CStatement} :
    ∀ cs : List CExecuteCase,
      createIRCases finalL expr table count cs = .ok (tests, executes, next) →
      CaseAccounts finalL table count next tests executes
  | [], made => by
    obtain ⟨rfl, rfl, rfl⟩ := createdNoCase made
    exact ⟨namesNone _, fun _ mem => absurd mem List.not_mem_nil⟩
  | .mk none _ _ :: _, made => absurd made createdValue
  | .mk (some value) maxValue ifCase :: rest, made => by
    obtain ⟨test, table', first, body, second, others, bodies, testOk, bodyOk, restOk, rfl, rfl⟩ :=
      createdCase made
    obtain ⟨tested, stored⟩ := testAccounts testOk
    exact caseAccounts tested stored (expressionsAccounts ifCase bodyOk) (casesAccounts rest restOk)

end

end Flexbuild.SoftIr
