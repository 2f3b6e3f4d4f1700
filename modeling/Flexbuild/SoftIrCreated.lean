import Mathlib.Data.List.Nodup
import Flexbuild.SoftIrCreate
import Flexbuild.Results

/-! What is created for each element, and the labels in it: each is counted anew, so that all of
them are distinct, and every jump goes to one of them. -/
namespace Flexbuild.SoftIr
open Numerals Traces Results

section Created

variable {count next : Nat} {code : List CStatement} {expr e : CENode}

theorem createdExprValue (made : createIRExprValue expr = .ok e) : e = expr := by
  simp only [createIRExprValue, bindOk, pureOk] at made
  obtain ⟨_, -, rfl⟩ := made
  rfl

theorem createdCond (made : createIRCond expr = .ok e) : e = expr := by
  simp only [createIRCond, bindOk] at made
  obtain ⟨a, value, made⟩ := made
  split at made
  · cases made
    exact createdExprValue value
  · exact absurd made throwOk

theorem createdAssignOne {name value : CENode} (made : createIRAssignOne name value = .ok code) :
    code = [.expression (.dyadic .ass name value)] := by
  simp only [createIRAssignOne, bindOk] at made
  obtain ⟨left, nameOk, made⟩ := made
  cases createdExprValue nameOk
  split at made
  · split at made
    · simp only [bindOk] at made
      obtain ⟨right, valueOk, made⟩ := made
      cases createdExprValue valueOk
      split at made
      · cases made
      · cases made
        rfl
    · exact absurd made throwOk
  · exact absurd made throwOk

theorem createdAssign {name value : CENode}
    (made : createIRExpression count (.assign name value none) = .ok (code, next)) :
    code = [.expression (.dyadic .ass name value)] ∧ next = count := by
  simp only [createIRExpression, bindOk, pureOk, createIRAssign] at made
  obtain ⟨statements, one, made⟩ := made
  cases made
  exact ⟨createdAssignOne one, rfl⟩

theorem createdAssignOffset {name value fwoffset : CENode}
    (made : createIRExpression count (.assign name value (some fwoffset)) = .ok (code, next)) :
    code = [.expression (.dyadic .ass windowOffset fwoffset), .expression (.dyadic .ass name value),
      .expression (.dyadic .ass windowOffset (.intConst 0))] ∧ next = count ∧
    createIRExpressions count [.assign name value none, .assign windowOffset (.intConst 0) none] =
      .ok ([.expression (.dyadic .ass name value),
        .expression (.dyadic .ass windowOffset (.intConst 0))], count) := by
  simp only [createIRExpression, bindOk, pureOk, createIRAssign] at made
  obtain ⟨statements, ⟨before, beforeOk, one, oneOk, behind, behindOk, rfl⟩, made⟩ := made
  cases made
  cases createdAssignOne beforeOk
  cases createdAssignOne oneOk
  cases createdAssignOne behindOk
  refine ⟨rfl, rfl, ?_⟩
  simp only [createIRExpressions, createIRExpression, createIRAssign, oneOk, behindOk, bind,
    Except.bind, pure, Except.pure, List.singleton_append, List.append_nil]

theorem createdHeaderSize {value : CENode}
    (made : createIRExpression count (.headerSize value) = .ok (code, next)) :
    code = [] ∧ next = count := by
  simp only [createIRExpression, bindOk, pureOk] at made
  obtain ⟨_, -, made⟩ := made
  cases made
  exact ⟨rfl, rfl⟩

theorem createdInline {data : Text}
    (made : createIRExpression count (.inline_ data) = .ok (code, next)) :
    code = [.inline_ data] ∧ next = count := by
  simp only [createIRExpression, pureOk] at made
  cases made
  exact ⟨rfl, rfl⟩

theorem createdIf {ifTrue : List CExecuteExpression}
    (made : createIRExpression count (.if_ expr (some ifTrue) none) = .ok (code, next)) :
    ∃ body, createIRExpressions (count + 1) ifTrue = .ok (body, next) ∧
      code = .ifNGoto (.named (uniqueName (count + 1))) expr :: body ++
        [.label (uniqueName (count + 1))] := by
  simp only [createIRExpression, bindOk, pureOk] at made
  obtain ⟨cond, condOk, ⟨body, next'⟩, bodyOk, made⟩ := made
  cases createdCond condOk
  cases made
  exact ⟨body, bodyOk, rfl⟩

theorem createdIfElse {ifTrue ifFalse : List CExecuteExpression}
    (made : createIRExpression count (.if_ expr (some ifTrue) (some ifFalse)) = .ok (code, next)) :
    ∃ others middle body, createIRExpressions (count + 1) ifFalse = .ok (others, middle) ∧
      createIRExpressions (middle + 1) ifTrue = .ok (body, next) ∧
      code = .ifGoto (.named (uniqueName (count + 1))) expr :: others ++
        .goto (.named (uniqueName (middle + 1))) .initial none ::
        .label (uniqueName (count + 1)) :: body ++ [.label (uniqueName (middle + 1))] := by
  simp only [createIRExpression, bindOk, pureOk] at made
  obtain ⟨cond, condOk, ⟨others, middle⟩, othersOk, ⟨body, next'⟩, bodyOk, made⟩ := made
  cases createdCond condOk
  cases made
  exact ⟨others, middle, body, othersOk, bodyOk, rfl⟩

theorem createdLoop {loopBody : List CExecuteExpression}
    (made : createIRExpression count (.loop expr loopBody) = .ok (code, next)) :
    ∃ body, createIRExpressions (count + 2) loopBody = .ok (body, next) ∧
      code = .label (uniqueName (count + 1)) ::
        .ifNGoto (.named (uniqueName (count + 2))) expr :: body ++
        [.goto (.named (uniqueName (count + 1))) .initial none,
          .label (uniqueName (count + 2))] := by
  simp only [createIRExpression, bindOk, pureOk] at made
  obtain ⟨cond, condOk, ⟨body, next'⟩, bodyOk, made⟩ := made
  cases createdCond condOk
  cases made
  exact ⟨body, bodyOk, rfl⟩

theorem createdSwitch {cases : List CExecuteCase} {defaultCase : Option (List CExecuteExpression)}
    (made : createIRExpression count (.switch expr cases defaultCase) = .ok (code, next)) :
    cases ≠ [] ∧ ∃ tests executes middle otherwise,
      createIRCases (uniqueName (count + 1)) expr [] (count + 1) cases =
        .ok (tests, executes, middle) ∧
      createIRExpressions middle (defaultCase.getD []) = .ok (otherwise, next) ∧
      code = tests ++ otherwise ++ .goto (.named (uniqueName (count + 1))) .initial none ::
        executes ++ [.label (uniqueName (count + 1))] := by
  rw [createIRExpression] at made
  split at made
  · cases made
  · rename_i some_
    have some_ : cases ≠ [] := by simpa using some_
    cases defaultCase with
    | none =>
      simp only [bindOk, pureOk] at made
      obtain ⟨⟨tests, executes, middle⟩, casesOk, ⟨otherwise, next'⟩, defaultOk, made⟩ := made
      cases defaultOk
      cases made
      exact ⟨some_, tests, executes, _, [], casesOk, by rw [Option.getD, createIRExpressions]; rfl, rfl⟩
    | some els =>
      simp only [bindOk, pureOk] at made
      obtain ⟨⟨tests, executes, middle⟩, casesOk, ⟨otherwise, next'⟩, defaultOk, made⟩ := made
      cases made
      exact ⟨some_, tests, executes, middle, otherwise, casesOk, defaultOk, rfl⟩

theorem createdNil (made : createIRExpressions count [] = .ok (code, next)) :
    code = [] ∧ next = count := by
  simp only [createIRExpressions, pureOk] at made
  cases made
  exact ⟨rfl, rfl⟩

theorem createdCons {first : CExecuteExpression} {rest : List CExecuteExpression}
    (made : createIRExpressions count (first :: rest) = .ok (code, next)) :
    ∃ one middle others, createIRExpression count first = .ok (one, middle) ∧
      createIRExpressions middle rest = .ok (others, next) ∧ code = one ++ others := by
  simp only [createIRExpressions, bindOk, pureOk] at made
  obtain ⟨⟨one, middle⟩, oneOk, ⟨others, next'⟩, othersOk, made⟩ := made
  cases made
  exact ⟨one, middle, others, oneOk, othersOk, rfl⟩

variable {finalL : Text} {table table' : List (Nat × CLabel)} {tests executes : List CStatement} {maxValue : Option CENode}

theorem createdCase {value : Word} {ifCase : List CExecuteExpression} {rest : List CExecuteCase}
    (made : createIRCases finalL expr table count (.mk (some value) maxValue ifCase :: rest) =
      .ok (tests, executes, next)) :
    ∃ test table' first body second others bodies,
      createIRTest expr table (count + 1) value maxValue rest.isEmpty = .ok (test, table', first) ∧
      createIRExpressions first ifCase = .ok (body, second) ∧
      createIRCases finalL expr table' second rest = .ok (others, bodies, next) ∧
      tests = test ++ others ∧
      executes = .label (uniqueName (count + 1)) :: body ++
        .goto (.named finalL) .initial none :: bodies := by
  simp only [createIRCases, bindOk, pureOk] at made
  obtain ⟨⟨test, table', first⟩, testOk, ⟨body, second⟩, bodyOk, ⟨others, bodies, next'⟩, restOk,
    made⟩ := made
  cases made
  exact ⟨test, table', first, body, second, others, bodies, testOk, bodyOk, restOk, rfl, rfl⟩

theorem createdNoCase (made : createIRCases finalL expr table count [] = .ok (tests, executes, next)) :
    tests = [] ∧ executes = [] ∧ next = count := by
  simp only [createIRCases, pureOk] at made
  cases made
  exact ⟨rfl, rfl, rfl⟩

theorem createdValue {ifCase : List CExecuteExpression} {rest : List CExecuteCase} :
    ¬ createIRCases finalL expr table count (.mk none maxValue ifCase :: rest) =
      .ok (tests, executes, next) := by
  rw [createIRCases]
  exact throwOk

theorem createdTest {value : Word} {last : Bool}
    (made : createIRTest expr table count value maxValue last = .ok (tests, table', next)) :
    (wide value = true ∧ table' = [] ∧ next = count ∧
      tests = flushTable expr table ++
        [.ifGoto (.named (uniqueName count)) (.dyadic .equ (.intConst value) expr)]) ∨
    (wide value = false ∧ ∃ most, maxValue = some most ∧ table' = [] ∧ next = count + 1 ∧
      tests = flushTable expr table ++
        [.ifGoto (.named (uniqueName (count + 1))) (.dyadic .greater (.intConst value) expr),
          .ifGoto (.named (uniqueName (count + 1))) (.dyadic .less most expr),
          .goto (.named (uniqueName count)) .initial none, .label (uniqueName (count + 1))]) ∨
    (wide value = false ∧ maxValue = none ∧ next = count ∧
      ((tests = [] ∧ last = false ∧
        table' = table ++ [(value.toNat % 2 ^ 16, .named (uniqueName count))]) ∨
      (table' = [] ∧
        tests = [.switch expr (table ++ [(value.toNat % 2 ^ 16, .named (uniqueName count))])]))) := by
  unfold createIRTest at made
  dsimp only at made
  split at made
  · rename_i large
    simp only [bindOk, pureOk] at made
    obtain ⟨equal, equalOk, made⟩ := made
    cases createdExprValue equalOk
    cases made
    exact .inl ⟨large, rfl, rfl, rfl⟩
  · rename_i small
    rw [Bool.not_eq_true] at small
    cases maxValue with
    | some most =>
      simp only [bindOk, pureOk] at made
      obtain ⟨below, belowOk, above, aboveOk, made⟩ := made
      cases createdExprValue belowOk
      cases createdExprValue aboveOk
      cases made
      exact .inr (.inl ⟨small, most, rfl, rfl, rfl, rfl⟩)
    | none =>
      dsimp only at made
      generalize table ++ [(value.toNat % 2 ^ 16, CLabel.named (uniqueName count))] = gathered
        at made ⊢
      have stored : (if (decide (gathered.length = 4) || last) = true then
            (pure ([.switch expr gathered], [], count) :
              Except Refusal (List CStatement × List (Nat × CLabel) × Nat))
          else pure ([], gathered, count)) = .ok (tests, table', next) := by
        split at made
        · rw [bindOk] at made
          obtain ⟨e, -, made⟩ := made
          split at made
          · cases made
          · exact made
        · exact made
      refine .inr (.inr ⟨small, rfl, ?_⟩)
      split at stored
      · cases stored
        exact ⟨rfl, .inr ⟨rfl, rfl⟩⟩
      · rename_i more
        cases stored
        refine ⟨rfl, .inl ⟨rfl, ?_, rfl⟩⟩
        rw [Bool.or_eq_true, not_or, Bool.not_eq_true] at more
        exact Bool.eq_false_of_not_eq_true more.2

end Created

end Flexbuild.SoftIr
