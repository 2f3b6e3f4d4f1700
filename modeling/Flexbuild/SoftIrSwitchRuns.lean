import Mathlib.Data.List.Nodup
import Flexbuild.SoftIrCreated
import Flexbuild.SoftIrFlow

/-! The run through the tests of a switch: tables, single tests and range tests together come to
the body of the first case that is tested true, or behind the tests when there is none. -/
namespace Flexbuild.SoftIr
open Numerals Traces

variable {σ : Type} {m : Meaning σ} {whole more : List CStatement} {s : σ}

theorem labelFound {name : Text} {rest : List CStatement} (distinct : (labels whole).Nodup)
    (within : .label name :: rest <:+ whole) : findLabel name whole = some rest := by
  obtain ⟨pre, rfl⟩ := within
  rw [labelsAppend, List.nodup_append'] at distinct
  have absent : name ∉ labels pre := fun mem => distinct.2.2 mem List.mem_cons_self
  rw [findLabelAppend, findLabelNone absent]
  simp [findLabel, CStatement.defines]

theorem goToLabel {name : Text} {rest : List CStatement} {flags : CStatementFlags} {v : Option Word}
    (distinct : (labels whole).Nodup) (within : .label name :: rest <:+ whole) (s : σ) :
    goTo whole s flags v (.named name) = .at_ rest s := by
  rw [goTo, labelFound distinct within]

section Silent

variable {a b c : Config σ} {es : List Event} {j k : Nat}

theorem runTrans (first : run (machine m whole) j a = ([], b))
    (second : run (machine m whole) k b = (es, c)) : run (machine m whole) (j + k) a = (es, c) := by
  rw [runAdd, first, second]
  rfl

theorem runSilent (step : machine m whole a = some (none, b)) :
    run (machine m whole) 1 a = ([], b) := runOne step

theorem runLabel (name : Text) (more : List CStatement) (s : σ) :
    run (machine m whole) 1 (.at_ (.label name :: more) s) = ([], .at_ more s) := runSilent rfl

theorem runGoto {flags : CStatementFlags} (l : CLabel) (more : List CStatement) (s : σ) :
    run (machine m whole) 1 (.at_ (.goto l flags none :: more) s) = ([], goTo whole s flags none l) :=
  runSilent rfl

theorem runIfGoto {expr : CENode} (l : CLabel) (more : List CStatement) (s : σ) :
    run (machine m whole) 1 (.at_ (.ifGoto l expr :: more) s) =
      ([], if holds m s expr then goTo whole s .initial none l else .at_ more s) := by
  refine runSilent ?_
  rw [machine, exec]
  cases holds m s expr <;> rfl

theorem runIfNGoto {expr : CENode} (l : CLabel) (more : List CStatement) (s : σ) :
    run (machine m whole) 1 (.at_ (.ifNGoto l expr :: more) s) =
      ([], if holds m s expr then .at_ more s else goTo whole s .initial none l) := by
  refine runSilent ?_
  rw [machine, exec]
  cases holds m s expr <;> rfl

end Silent

def tableAim (table : List (Nat × CLabel)) (v : Word) : Option CLabel :=
  (table.find? (fun c => decide (BitVec.ofNat 64 c.1 = v))).map Prod.snd

theorem runSwitch {expr : CENode} {table : List (Nat × CLabel)} (more : List CStatement) (s : σ) :
    run (machine m whole) 1 (.at_ (.switch expr table :: more) s) =
      ([], ((tableAim table (eval m s expr)).map (goTo whole s .initial none)).getD (.at_ more s)) := by
  refine runSilent ?_
  rw [machine, exec, tableAim]
  cases table.find? (fun c => decide (BitVec.ofNat 64 c.1 = eval m s expr)) <;> rfl

theorem tableAimAppend (table : List (Nat × CLabel)) (entry : Nat × CLabel) (v : Word) :
    tableAim (table ++ [entry]) v =
      (tableAim table v).or (if BitVec.ofNat 64 entry.1 = v then some entry.2 else none) := by
  rw [tableAim, tableAim, List.find?_append]
  cases table.find? (fun c => decide (BitVec.ofNat 64 c.1 = v)) with
  | some found => rfl
  | none =>
    rw [List.find?_cons, List.find?_nil]
    split <;> simp_all

theorem flushRuns (expr : CENode) (table : List (Nat × CLabel)) (more : List CStatement) (s : σ) :
    (∃ l k, tableAim table (eval m s expr) = some l ∧
      run (machine m whole) (k + 1) (.at_ (flushTable expr table ++ more) s) =
        ([], goTo whole s .initial none l)) ∨
    (tableAim table (eval m s expr) = none ∧
      ∃ k, run (machine m whole) k (.at_ (flushTable expr table ++ more) s) =
        ([], .at_ more s)) := by
  unfold flushTable
  split
  · rename_i none_
    rw [List.isEmpty_iff] at none_
    subst none_
    exact .inr ⟨rfl, 0, rfl⟩
  · have step := @runSwitch σ m whole expr table more s
    cases aim : tableAim table (eval m s expr) with
    | some l =>
      rw [aim] at step
      exact .inl ⟨l, 0, rfl, step⟩
    | none =>
      rw [aim] at step
      exact .inr ⟨rfl, 1, step⟩

def testAim (m : Meaning σ) (s : σ) (expr : CENode) (table : List (Nat × CLabel)) (count : Nat)
    (case : CExecuteCase) : Option CLabel :=
  (tableAim table (eval m s expr)).or
    (if case.tested m s (eval m s expr) then some (.named (uniqueName count)) else none)

variable {value : Word}

theorem narrowValue (narrow : wide value = false) : BitVec.ofNat 64 (value.toNat % 2 ^ 16) = value := by
  have masked : value &&& 0xFFFFFFFFFFFF0000 = 0 := by simpa [wide] using narrow
  have mask : ∀ i : Fin 64, 16 ≤ i.val → (0xFFFFFFFFFFFF0000 : Word).getLsbD i = true := by decide
  have small : value.toNat < 2 ^ 16 := by
    apply Nat.lt_pow_two_of_testBit
    intro i le
    rcases Nat.lt_or_ge i 64 with lt | ge
    · have bit : (value &&& 0xFFFFFFFFFFFF0000).getLsbD i = (0 : Word).getLsbD i := by rw [masked]
      rw [BitVec.getLsbD_and, mask ⟨i, lt⟩ le, Bool.and_true] at bit
      exact bit.trans BitVec.getLsbD_zero
    · exact BitVec.getLsbD_of_ge value i ge
  rw [Nat.mod_eq_of_lt small, BitVec.ofNat_toNat, BitVec.setWidth_eq]

section Tests

variable {count next : Nat} {expr : CENode} {table table' : List (Nat × CLabel)}
  {tests executes : List CStatement} {case : CExecuteCase}

theorem testedWide (large : wide value = true) (most : Option CENode)
    (ifCase : List CExecuteExpression) (v : Word) :
    CExecuteCase.tested m s v (.mk (some value) most ifCase) = decide (value = v) := by
  rw [CExecuteCase.tested, if_pos large]

theorem testedNarrow (small : wide value = false) (most : Option CENode)
    (ifCase : List CExecuteExpression) (v : Word) :
    CExecuteCase.tested m s v (.mk (some value) most ifCase) =
      CExecuteCase.hits m s v (.mk (some value) most ifCase) := by
  rw [CExecuteCase.tested, small, if_neg Bool.false_ne_true]

theorem flushedRuns {single : List CStatement}
    (runs : ∃ k, run (machine m whole) (k + 1) (.at_ (single ++ more) s) =
      ([], if case.tested m s (eval m s expr) then
        goTo whole s .initial none (.named (uniqueName count)) else .at_ more s)) :
    (∃ l k, testAim m s expr table count case = some l ∧
      run (machine m whole) (k + 1) (.at_ (flushTable expr table ++ single ++ more) s) =
        ([], goTo whole s .initial none l)) ∨
    (tableAim [] (eval m s expr) = testAim m s expr table count case ∧
      ∃ k, run (machine m whole) k (.at_ (flushTable expr table ++ single ++ more) s) =
        ([], .at_ more s)) := by
  obtain ⟨j, single_⟩ := runs
  rw [List.append_assoc]
  rcases @flushRuns σ m whole expr table (single ++ more) s with ⟨l, k, aim, jumped⟩ |
    ⟨aim, k, passed⟩
  · refine .inl ⟨l, k, ?_, jumped⟩
    rw [testAim, aim, Option.some_or]
  · have all := runTrans passed single_
    cases tested : case.tested m s (eval m s expr) with
    | true =>
      refine .inl ⟨.named (uniqueName count), k + j, ?_, ?_⟩
      · rw [testAim, aim, tested, Option.none_or, if_pos rfl]
      · rwa [tested, if_pos rfl] at all
    | false =>
      refine .inr ⟨?_, k + (j + 1), ?_⟩
      · rw [testAim, aim, tested]
        rfl
      · rwa [tested, if_neg nofun] at all

theorem rangeRuns {most : CENode} {ifCase : List CExecuteExpression} {l : CLabel}
    {falseL : Text} (small : wide value = false) (distinct : (labels whole).Nodup)
    (within : .label falseL :: more <:+ whole) (s : σ) :
    ∃ k, run (machine m whole) (k + 1) (.at_ (.ifGoto (.named falseL)
        (.dyadic .greater (.intConst value) expr) :: .ifGoto (.named falseL)
        (.dyadic .less most expr) :: .goto l .initial none :: .label falseL :: more) s) =
      ([], if CExecuteCase.tested m s (eval m s expr) (.mk (some value) (some most) ifCase) then
        goTo whole s .initial none l else .at_ more s) := by
  rw [testedNarrow small, CExecuteCase.hits]
  have first := @runIfGoto σ m whole (.dyadic .greater (.intConst value) expr) (.named falseL)
    (.ifGoto (.named falseL) (.dyadic .less most expr) :: .goto l .initial none :: .label falseL ::
      more) s
  have second := @runIfGoto σ m whole (.dyadic .less most expr) (.named falseL)
    (.goto l .initial none :: .label falseL :: more) s
  have last := @runGoto σ m whole .initial l (.label falseL :: more) s
  rw [goToLabel distinct within, holds, eval] at first
  rw [goToLabel distinct within, holds] at second
  by_cases below : eval m s expr < value
  · refine ⟨0, ?_⟩
    rw [decide_eq_true below, if_pos rfl] at first
    rw [decide_eq_false (BitVec.not_le.mpr below), Bool.false_and, if_neg nofun]
    exact first
  · rw [decide_eq_false below, if_neg nofun] at first
    rw [decide_eq_true (BitVec.not_lt.mp below), Bool.true_and]
    by_cases above : eval m s most < eval m s expr
    · refine ⟨1, ?_⟩
      rw [decide_eq_true above, if_pos rfl] at second
      rw [decide_eq_false (BitVec.not_le.mpr above), if_neg nofun]
      exact runTrans first second
    · rw [decide_eq_false above, if_neg nofun] at second
      have all := runTrans first (runTrans second last)
      refine ⟨2, ?_⟩
      rw [decide_eq_true (BitVec.not_lt.mp above), if_pos rfl]
      exact all

theorem testRuns {value : Word} {maxValue : Option CENode} {ifCase : List CExecuteExpression}
    {last : Bool} (made : createIRTest expr table count value maxValue last = .ok (tests, table', next))
    (distinct : (labels whole).Nodup) (within : tests ++ more <:+ whole) (s : σ) :
    (∃ l k, testAim m s expr table count (.mk (some value) maxValue ifCase) = some l ∧
      run (machine m whole) (k + 1) (.at_ (tests ++ more) s) = ([], goTo whole s .initial none l)) ∨
    (tableAim table' (eval m s expr) =
        testAim m s expr table count (.mk (some value) maxValue ifCase) ∧
      ∃ k, run (machine m whole) k (.at_ (tests ++ more) s) = ([], .at_ more s)) := by
  rcases createdTest made with ⟨large, rfl, -, rfl⟩ | ⟨small, most, rfl, rfl, -, rfl⟩ |
    ⟨small, rfl, -, stored⟩
  · refine flushedRuns ⟨0, ?_⟩
    rw [testedWide large]
    exact runIfGoto _ _ s
  · refine flushedRuns (rangeRuns small distinct (List.IsSuffix.trans ?_ within) s)
    rw [List.append_assoc]
    refine List.IsSuffix.trans ?_ (List.suffix_append _ _)
    exact ⟨[_, _, _], rfl⟩
  · have aim : tableAim (table ++ [(value.toNat % 2 ^ 16, .named (uniqueName count))])
        (eval m s expr) = testAim m s expr table count (.mk (some value) none ifCase) := by
      rw [tableAimAppend, narrowValue small, testAim, testedNarrow small, CExecuteCase.hits]
      simp only [decide_eq_true_eq]
    rcases stored with ⟨rfl, -, rfl⟩ | ⟨rfl, rfl⟩
    · exact .inr ⟨aim, 0, rfl⟩
    · have step := @runSwitch σ m whole expr
        (table ++ [(value.toNat % 2 ^ 16, .named (uniqueName count))]) more s
      rw [aim] at step
      cases found : testAim m s expr table count (.mk (some value) none ifCase) with
      | some l =>
        rw [found] at step
        exact .inl ⟨l, 0, rfl, step⟩
      | none =>
        rw [found] at step
        exact .inr ⟨rfl, 1, step⟩

inductive Comes (m : Meaning σ) (whole more : List CStatement) (s : σ) (finalL : Text)
    (start : Config σ) : Option CLabel → Option CExecuteCase → Prop
  | stored {l : CLabel} {case : Option CExecuteCase} (k : Nat)
      (jumped : run (machine m whole) (k + 1) start = ([], goTo whole s .initial none l)) :
      Comes m whole more s finalL start (some l) case
  | body {case : CExecuteCase} {count next : Nat} {body rest : List CStatement} (k : Nat)
      (made : createIRExpressions count case.ifCase = .ok (body, next))
      (within : body ++ .goto (.named finalL) .initial none :: rest <:+ whole)
      (jumped : run (machine m whole) (k + 1) start =
        ([], .at_ (body ++ .goto (.named finalL) .initial none :: rest) s)) :
      Comes m whole more s finalL start none (some case)
  | behind (k : Nat) (passed : run (machine m whole) k start = ([], .at_ more s)) :
      Comes m whole more s finalL start none none

theorem comesLater {finalL : Text} {a b : Config σ} {l : Option CLabel} {case : Option CExecuteCase}
    {k : Nat} (first : run (machine m whole) k a = ([], b)) (comes : Comes m whole more s finalL b l case) :
    Comes m whole more s finalL a l case := by
  cases comes with
  | stored j jumped =>
    have all := runTrans first jumped
    exact .stored (k + j) all
  | body j made within jumped =>
    have all := runTrans first jumped
    exact .body (k + j) made within all
  | behind j passed => exact .behind (k + j) (runTrans first passed)

theorem testsSome {finalL : Text} {cases : List CExecuteCase}
    (made : createIRCases finalL expr table count cases = .ok (tests, executes, next))
    (some_ : cases ≠ []) : tests ≠ [] := by
  induction cases generalizing table count tests executes with
  | nil => exact absurd rfl some_
  | cons case rest ih =>
    obtain ⟨value, maxValue, ifCase⟩ := case
    cases value with
    | none => exact absurd made createdValue
    | some value =>
      obtain ⟨test, table', a, body, b, others, bodies, testOk, -, restOk, rfl, -⟩ := createdCase made
      intro none_
      obtain ⟨rfl, rfl⟩ := List.append_eq_nil_iff.mp none_
      rcases createdTest testOk with ⟨-, -, -, same⟩ | ⟨-, most, -, -, -, same⟩ |
        ⟨-, -, -, stored⟩
      · exact absurd same.symm (List.append_ne_nil_of_right_ne_nil _ nofun)
      · exact absurd same.symm (List.append_ne_nil_of_right_ne_nil _ nofun)
      · rcases stored with ⟨-, more, -⟩ | ⟨-, same⟩
        · exact ih restOk (by rintro rfl; cases more) rfl
        · cases same

theorem testEmpties {maxValue : Option CENode} {last : Bool}
    (made : createIRTest expr table count value maxValue last = .ok (tests, table', next)) :
    table' = [] ∨ last = false := by
  rcases createdTest made with ⟨-, none_, -⟩ | ⟨-, -, -, none_, -⟩ | ⟨-, -, -, ⟨-, more, -⟩ | ⟨none_, -⟩⟩
  · exact .inl none_
  · exact .inl none_
  · exact .inr more
  · exact .inl none_

theorem casesRuns {finalL : Text} {cases : List CExecuteCase} {behind : List CStatement}
    (made : createIRCases finalL expr table count cases = .ok (tests, executes, next))
    (empty : table = [] ∨ cases ≠ []) (distinct : (labels whole).Nodup)
    (within : tests ++ more <:+ whole) (bodies : executes ++ behind <:+ whole) (s : σ) :
    Comes m whole more s finalL (.at_ (tests ++ more) s) (tableAim table (eval m s expr))
      (cases.find? (CExecuteCase.tested m s (eval m s expr))) := by
  induction cases generalizing table count tests executes with
  | nil =>
    obtain ⟨rfl, rfl, rfl⟩ := createdNoCase made
    rcases empty with rfl | some_
    · exact .behind 0 rfl
    · exact absurd rfl some_
  | cons case rest ih =>
    obtain ⟨value, maxValue, ifCase⟩ := case
    cases value with
    | none => exact absurd made createdValue
    | some value =>
      obtain ⟨test, table', a, body, b, others, bodies', testOk, bodyOk, restOk, rfl, rfl⟩ :=
        createdCase made
      rw [List.append_assoc] at within bodies ⊢
      rw [List.cons_append, List.cons_append] at bodies
      have own : goTo whole s .initial none (.named (uniqueName (count + 1))) =
          .at_ (body ++ .goto (.named finalL) .initial none :: (bodies' ++ behind)) s :=
        goToLabel distinct bodies s
      have inside := (List.suffix_cons _ _).trans bodies
      have suffix := (List.suffix_cons _ _).trans ((List.suffix_append body _).trans inside)
      have empty' : table' = [] ∨ rest ≠ [] := by
        rcases testEmpties testOk with none_ | more
        · exact .inl none_
        · exact .inr (by rintro rfl; cases more)
      have later := ih restOk empty' ((List.suffix_append test _).trans within) suffix
      rw [List.find?_cons]
      rcases @testRuns σ m whole (others ++ more) _ _ expr table table' test value maxValue ifCase _
        testOk distinct within s with
        ⟨l, k, aim, jumped⟩ | ⟨aim, k, passed⟩
      · rw [testAim] at aim
        cases stored : tableAim table (eval m s expr) with
        | some l' =>
          rw [stored, Option.some_or] at aim
          cases aim
          exact .stored k jumped
        | none =>
          rw [stored, Option.none_or] at aim
          split at aim
          · rename_i tested
            cases aim
            rw [tested]
            rw [own] at jumped
            exact .body k bodyOk inside jumped
          · cases aim
      · have comes := comesLater passed later
        rw [aim, testAim] at comes
        cases stored : tableAim table (eval m s expr) with
        | some l =>
          rw [stored, Option.some_or] at comes
          cases comes with
          | stored j jumped => exact .stored j jumped
        | none =>
          rw [stored, Option.none_or] at comes
          split at comes
          · rename_i tested
            rw [tested]
            cases comes with
            | stored j jumped =>
              rw [own] at jumped
              exact .body j bodyOk inside jumped
          · rename_i tested
            rw [Bool.eq_false_of_not_eq_true tested]
            exact comes

end Tests

end Flexbuild.SoftIr
