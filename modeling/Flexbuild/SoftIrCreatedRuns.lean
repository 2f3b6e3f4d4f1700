import Mathlib.Data.List.Nodup
import Flexbuild.SoftIrCreatedNames
import Flexbuild.SoftIrSwitchRuns

/-! The statements created for an execute section do what its elements mean: what is left of the
code stands, at each step, for what is left to do. -/
namespace Flexbuild.SoftIr
open Numerals Traces

variable {σ : Type} {m : Meaning σ} {whole : List CStatement} {s : σ}

inductive Stands (whole : List CStatement) : List CExecuteExpression → List CStatement → Prop
  | done : Stands whole [] []
  | label {todo : List CExecuteExpression} {code : List CStatement} (name : Text)
      (later : Stands whole todo code) : Stands whole todo (.label name :: code)
  | goto {todo : List CExecuteExpression} {code tail : List CStatement} {name : Text}
      (found : findLabel name whole = some code) (later : Stands whole todo code) :
      Stands whole todo (.goto (.named name) .initial none :: tail)
  | created {els rest : List CExecuteExpression} {code tail : List CStatement} {count next : Nat}
      (made : createIRExpressions count els = .ok (code, next)) (within : code ++ tail <:+ whole)
      (later : Stands whole rest tail) : Stands whole (els ++ rest) (code ++ tail)
  | turn {expr : CENode} {loopBody rest : List CExecuteExpression} {body tail : List CStatement}
      {count next : Nat} {label1 label2 : Text}
      (made : createIRExpressions count loopBody = .ok (body, next))
      (within : .label label1 :: .ifNGoto (.named label2) expr :: (body ++
        .goto (.named label1) .initial none :: .label label2 :: tail) <:+ whole)
      (later : Stands whole rest tail) :
      Stands whole (.loop expr loopBody :: rest) (.ifNGoto (.named label2) expr :: (body ++
        .goto (.named label1) .initial none :: .label label2 :: tail))

inductive Relates (whole : List CStatement) : Flow σ → Config σ → Prop
  | at_ {todo : List CExecuteExpression} {code : List CStatement} (s : σ)
      (stands : Stands whole todo code) : Relates whole (.at_ todo s) (.at_ code s)
  | leaving (e : Event) : Relates whole (.leaving e) (.leaving e)
  | halted : Relates whole .halted .halted

def Simulates (m : Meaning σ) (whole : List CStatement) (s : σ) (todo : List CExecuteExpression)
    (code : List CStatement) : Prop :=
  ∃ j b, run (machine m whole) (j + 1) (.at_ code s) =
      ((proceed CExecuteCase.tested m s todo).1.toList, b) ∧
    Relates whole (proceed CExecuteCase.tested m s todo).2 b

section Steps

variable {rest : List CExecuteExpression} {behind code : List CStatement} {count next : Nat}
  {expr : CENode}

theorem simulatesSilent {todo : List CExecuteExpression} {start : List CStatement} {k : Nat}
    (silent : run (machine m whole) k (.at_ start s) = ([], .at_ code s))
    (simulates : Simulates m whole s todo code) : Simulates m whole s todo start := by
  obtain ⟨j, b, steps, relates⟩ := simulates
  have all := runTrans silent steps
  exact ⟨k + j, b, all, relates⟩

theorem simulatesTo {todo after : List CExecuteExpression} {start : List CStatement} {k : Nat}
    (proceeds : proceed CExecuteCase.tested m s todo = (none, .at_ after s))
    (silent : run (machine m whole) (k + 1) (.at_ start s) = ([], .at_ code s))
    (stands : Stands whole after code) : Simulates m whole s todo start := by
  refine ⟨k, .at_ code s, ?_, ?_⟩
  · rw [proceeds]
    exact silent
  · rw [proceeds]
    exact .at_ s stands

theorem assignSteps {name value : CENode} (later : Stands whole rest behind) :
    Simulates m whole s (.assign name value none :: rest)
      (.expression (.dyadic .ass name value) :: behind) :=
  ⟨0, _, runOne rfl, .at_ _ later⟩

theorem offsetSteps {name value fwoffset : CENode}
    (made : createIRExpressions count
      [.assign name value none, .assign windowOffset (.intConst 0) none] = .ok (code, next))
    (within : code ++ behind <:+ whole) (later : Stands whole rest behind) :
    Simulates m whole s (.assign name value (some fwoffset) :: rest)
      (.expression (.dyadic .ass windowOffset fwoffset) :: (code ++ behind)) :=
  ⟨0, _, runOne rfl, .at_ _ (.created made within later)⟩

theorem inlineSteps {data : Text} (later : Stands whole rest behind) :
    Simulates m whole s (.inline_ data :: rest) (.inline_ data :: behind) :=
  ⟨0, _, runOne rfl, .at_ _ later⟩

theorem ifSteps {ifTrue : List CExecuteExpression} {body : List CStatement} {label1 : Text}
    (made : createIRExpressions count ifTrue = .ok (body, next)) (distinct : (labels whole).Nodup)
    (within : body ++ .label label1 :: behind <:+ whole) (later : Stands whole rest behind) :
    Simulates m whole s (.if_ expr (some ifTrue) none :: rest)
      (.ifNGoto (.named label1) expr :: (body ++ .label label1 :: behind)) := by
  have step := @runIfNGoto σ m whole expr (.named label1) (body ++ .label label1 :: behind) s
  rw [goToLabel distinct ((List.suffix_append _ _).trans within)] at step
  cases cond : holds m s expr with
  | true =>
    rw [cond, if_pos rfl] at step
    exact simulatesTo (by rw [proceed, cond]; rfl) step (.created made within (.label label1 later))
  | false =>
    rw [cond, if_neg Bool.false_ne_true] at step
    exact simulatesTo (by rw [proceed, cond]; rfl) step later

theorem ifElseSteps {ifTrue ifFalse : List CExecuteExpression} {others body : List CStatement}
    {label1 label2 : Text} {count' next' : Nat}
    (no : createIRExpressions count ifFalse = .ok (others, next))
    (yes : createIRExpressions count' ifTrue = .ok (body, next')) (distinct : (labels whole).Nodup)
    (within : others ++ .goto (.named label2) .initial none :: .label label1 ::
      (body ++ .label label2 :: behind) <:+ whole) (later : Stands whole rest behind) :
    Simulates m whole s (.if_ expr (some ifTrue) (some ifFalse) :: rest)
      (.ifGoto (.named label1) expr :: (others ++ .goto (.named label2) .initial none ::
        .label label1 :: (body ++ .label label2 :: behind))) := by
  have step := @runIfGoto σ m whole expr (.named label1) (others ++
    .goto (.named label2) .initial none :: .label label1 :: (body ++ .label label2 :: behind)) s
  have second := (List.suffix_cons _ _).trans ((List.suffix_append _ _).trans within)
  have inside := (List.suffix_cons _ _).trans second
  have last := (List.suffix_append _ _).trans inside
  rw [goToLabel distinct second] at step
  cases cond : holds m s expr with
  | true =>
    rw [cond, if_pos rfl] at step
    exact simulatesTo (by rw [proceed, cond]; rfl) step (.created yes inside (.label label2 later))
  | false =>
    rw [cond, if_neg Bool.false_ne_true] at step
    exact simulatesTo (by rw [proceed, cond]; rfl) step
      (.created no within (.goto (labelFound distinct last) later))

theorem turnSteps {loopBody : List CExecuteExpression} {body : List CStatement}
    {label1 label2 : Text} (made : createIRExpressions count loopBody = .ok (body, next))
    (distinct : (labels whole).Nodup)
    (within : .label label1 :: .ifNGoto (.named label2) expr :: (body ++
      .goto (.named label1) .initial none :: .label label2 :: behind) <:+ whole)
    (later : Stands whole rest behind) :
    Simulates m whole s (.loop expr loopBody :: rest) (.ifNGoto (.named label2) expr :: (body ++
      .goto (.named label1) .initial none :: .label label2 :: behind)) := by
  have step := @runIfNGoto σ m whole expr (.named label2) (body ++
    .goto (.named label1) .initial none :: .label label2 :: behind) s
  have inside := (List.suffix_cons _ _).trans ((List.suffix_cons _ _).trans within)
  have last := (List.suffix_cons _ _).trans ((List.suffix_append _ _).trans inside)
  rw [goToLabel distinct last] at step
  cases cond : holds m s expr with
  | true =>
    rw [cond, if_pos rfl] at step
    exact simulatesTo (by rw [proceed, cond]; rfl) step (.created made inside
      (.goto (labelFound distinct within) (.turn made within later)))
  | false =>
    rw [cond, if_neg Bool.false_ne_true] at step
    exact simulatesTo (by rw [proceed, cond]; rfl) step later

theorem switchSteps {cases : List CExecuteCase} {defaultCase : Option (List CExecuteExpression)}
    {tests executes otherwise : List CStatement} {finalL : Text} {middle : Nat}
    (casesOk : createIRCases finalL expr [] count cases = .ok (tests, executes, middle))
    (some_ : cases ≠ [])
    (defaultOk : createIRExpressions middle (defaultCase.getD []) = .ok (otherwise, next))
    (distinct : (labels whole).Nodup)
    (within : tests ++ (otherwise ++ .goto (.named finalL) .initial none ::
      (executes ++ .label finalL :: behind)) <:+ whole) (later : Stands whole rest behind) :
    Simulates m whole s (.switch expr cases defaultCase :: rest)
      (tests ++ (otherwise ++ .goto (.named finalL) .initial none ::
        (executes ++ .label finalL :: behind))) := by
  have tail := (List.suffix_append _ _).trans within
  have bodies := (List.suffix_cons _ _).trans ((List.suffix_append _ _).trans tail)
  have final := labelFound distinct ((List.suffix_append _ _).trans bodies)
  have comes := casesRuns (m := m) casesOk (.inl rfl) distinct within bodies s
  have aim : tableAim [] (eval m s expr) = none := rfl
  rw [aim] at comes
  generalize found : cases.find? (CExecuteCase.tested m s (eval m s expr)) = hit at comes
  cases comes with
  | body k made inside jumped =>
    refine simulatesTo ?_ jumped (.created made inside (.goto final later))
    rw [proceed, chosen, found]
  | behind k passed =>
    cases k with
    | zero =>
      have same : tests ++ (otherwise ++ .goto (.named finalL) .initial none ::
          (executes ++ .label finalL :: behind)) = otherwise ++ .goto (.named finalL) .initial none ::
          (executes ++ .label finalL :: behind) := by
        injection (Prod.mk.inj passed).2
      exact absurd (List.append_left_eq_self.mp same) (testsSome casesOk some_)
    | succ k =>
      refine simulatesTo ?_ passed (.created defaultOk tail (.goto final later))
      rw [proceed, chosen, found]

theorem createdSteps {els : List CExecuteExpression}
    (made : createIRExpressions count els = .ok (code, next)) (distinct : (labels whole).Nodup)
    (within : code ++ behind <:+ whole) (later : Stands whole rest behind)
    (afterwards : Simulates m whole s rest behind) :
    Simulates m whole s (els ++ rest) (code ++ behind) := by
  induction els generalizing count code with
  | nil =>
    obtain ⟨rfl, -⟩ := createdNil made
    exact afterwards
  | cons e els ih =>
    obtain ⟨one, middle, others, oneOk, othersOk, rfl⟩ := createdCons made
    rw [List.append_assoc] at within ⊢
    have remaining : Stands whole (els ++ rest) (others ++ behind) :=
      .created othersOk ((List.suffix_append _ _).trans within) later
    rw [List.cons_append]
    cases e with
    | assign name value fwoffset =>
      cases fwoffset with
      | none =>
        obtain ⟨rfl, -⟩ := createdAssign oneOk
        exact assignSteps remaining
      | some fwoffset =>
        obtain ⟨rfl, -, restOk⟩ := createdAssignOffset oneOk
        exact offsetSteps restOk ((List.suffix_cons _ _).trans within) remaining
    | headerSize value =>
      obtain ⟨rfl, -⟩ := createdHeaderSize oneOk
      exact ih othersOk within
    | inline_ data =>
      obtain ⟨rfl, -⟩ := createdInline oneOk
      exact inlineSteps remaining
    | if_ expr ifTrue ifFalse =>
      cases ifTrue with
      | none =>
        rw [createIRExpression] at oneOk
        cases oneOk
      | some ifTrue =>
        cases ifFalse with
        | none =>
          obtain ⟨body, bodyOk, rfl⟩ := createdIf oneOk
          rw [List.append_assoc, List.cons_append] at within ⊢
          exact ifSteps bodyOk distinct ((List.suffix_cons _ _).trans within) remaining
        | some ifFalse =>
          obtain ⟨no, middle', yes, noOk, yesOk, rfl⟩ := createdIfElse oneOk
          simp only [List.append_assoc, List.cons_append, List.nil_append] at within ⊢
          exact ifElseSteps noOk yesOk distinct ((List.suffix_cons _ _).trans within) remaining
    | loop expr loopBody =>
      obtain ⟨body, bodyOk, rfl⟩ := createdLoop oneOk
      simp only [List.append_assoc, List.cons_append, List.nil_append] at within ⊢
      exact simulatesSilent (runLabel _ _ s) (turnSteps bodyOk distinct within remaining)
    | switch expr cases defaultCase =>
      obtain ⟨some_, tests, executes, middle', otherwise, casesOk, defaultOk, rfl⟩ :=
        createdSwitch oneOk
      simp only [List.append_assoc, List.cons_append, List.nil_append] at within ⊢
      exact switchSteps casesOk some_ defaultOk distinct within remaining

theorem standsSteps {todo : List CExecuteExpression} (distinct : (labels whole).Nodup)
    (stands : Stands whole todo code) : Simulates m whole s todo code := by
  induction stands with
  | done => exact ⟨0, _, runOne rfl, .leaving _⟩
  | label name later ih => exact simulatesSilent (runLabel _ _ s) ih
  | goto found later ih =>
    refine simulatesSilent (k := 1) ?_ ih
    rw [runGoto, goTo, found]
  | created made within later ih => exact createdSteps made distinct within later ih
  | turn made within later ih => exact turnSteps made distinct within later

end Steps

theorem relatesFollows (m : Meaning σ) (distinct : (labels whole).Nodup) :
    Follows (structured CExecuteCase.tested m) (machine m whole) (Relates whole) := by
  constructor
  · intro a b relates stopped
    cases relates with
    | at_ s stands => cases stopped
    | leaving e => cases stopped
    | halted => rfl
  · intro a b e a' relates step
    cases relates with
    | @at_ todo code s stands =>
      have same : proceed CExecuteCase.tested m s todo = (e, a') := Option.some.inj step
      have simulates : Simulates m whole s todo code := standsSteps distinct stands
      rw [Simulates, same] at simulates
      exact simulates
    | leaving e =>
      cases step
      exact ⟨0, _, runOne rfl, .halted⟩
    | halted => cases step

theorem flowKept {count count' : Nat} {els : List CExecuteExpression} {code : List CStatement}
    (made : createIRExpressions count els = .ok (code, count')) :
    (labels code).Nodup ∧ (∀ name ∈ targets code, name ∈ labels code) ∧
      ∀ (σ : Type) (m : Meaning σ) (s : σ),
        (∀ k, Agreeing m (run (structured CExecuteCase.hits m) k (.at_ els s)).2) →
        ∀ es, Performs (structured CExecuteCase.hits m) (.at_ els s) es ↔ Does m code s es := by
  have accounts : Accounts count count' code (fun _ => False) := expressionsAccounts els made
  refine ⟨accounts.names.distinct, fun name mem => accountsAims accounts mem, ?_⟩
  intro σ m s agree es
  have stands : Stands code els code := by
    have all : Stands code (els ++ []) (code ++ []) :=
      .created made ⟨[], by rw [List.nil_append, List.append_nil]⟩ .done
    rwa [List.append_nil, List.append_nil] at all
  exact (performsIff (agreeingFollows m) ⟨rfl, agree⟩ es).trans
    (performsIff (relatesFollows m accounts.names.distinct) (.at_ s stands) es)

def parsed : CENode := .objRef ⟨.ra, 0, 0⟩

def constant (v : Word) : Meaning Unit where
  object := fun _ _ => v
  binary := fun _ _ _ _ _ => 0
  assign := fun _ _ s => s
  inline_ := fun _ s => s
  endSection := fun _ _ s => s

def parsedAs (v : Word) : Event := .assign ⟨.ra, 0, 0⟩ v

def tableExample : List CExecuteExpression :=
  [.switch windowOffset
    [.mk (some 1) none [.assign parsed (.intConst 1) none],
      .mk (some 5) (some (.intConst 9)) [.assign parsed (.intConst 2) (some (.intConst 4))],
      .mk (some 0x10000) none [.if_ (.dyadic .less windowOffset parsed)
        (some [.assign parsed (.intConst 3) none]) none]]
    (some [.loop (.dyadic .equ parsed (.intConst 0)) [.assign parsed (.intConst 4) none]])]

def tableStatements : List CStatement :=
  match createIRExpressions 0 tableExample with
  | .ok (code, _) => code
  | .error _ => []

theorem flowKeptTable :
    (labels tableStatements).Nodup ∧
      (Performs (structured CExecuteCase.hits (constant 7)) (.at_ tableExample ())
        [.assign ⟨.wo, 0, 0⟩ 4, parsedAs 2, .assign ⟨.wo, 0, 0⟩ 0, .finish] ↔
      Does (constant 7) tableStatements ()
        [.assign ⟨.wo, 0, 0⟩ 4, parsedAs 2, .assign ⟨.wo, 0, 0⟩ 0, .finish]) := by
  have made : createIRExpressions 0 tableExample = .ok (tableStatements, 8) := by rfl
  obtain ⟨distinct, -, same⟩ := flowKept made
  exact ⟨distinct, same Unit (constant 7) () (narrowRuns _ (by rfl)) _⟩

def wideExample : List CExecuteExpression :=
  [.switch windowOffset [.mk (some 0x10000) (some (.intConst 0x20000))
    [.assign parsed (.intConst 1) none]] none]

def wideStatements : List CStatement :=
  match createIRExpressions 0 wideExample with
  | .ok (code, _) => code
  | .error _ => []

theorem wideRangeMissed :
    ¬ ∀ (count count' : Nat) (els : List CExecuteExpression) (code : List CStatement),
      createIRExpressions count els = .ok (code, count') →
      ∀ (m : Meaning Unit) (es : List Event),
        Performs (structured CExecuteCase.hits m) (.at_ els ()) es ↔ Does m code () es := by
  intro claimed
  have made : createIRExpressions 0 wideExample = .ok (wideStatements, 2) := by rfl
  have meant : Performs (structured CExecuteCase.hits (constant 0x10001)) (.at_ wideExample ())
      [parsedAs 1] := ⟨2, by decide⟩
  obtain ⟨k, done⟩ := (claimed _ _ _ _ made _ _).mp meant
  have all : run (machine (constant 0x10001) wideStatements) 5 (.at_ wideStatements ()) =
      ([.finish], .halted) := by rfl
  have within := @runFewer _ _ (machine (constant 0x10001) wideStatements) _ _
    (Nat.le_add_left k 5) (.at_ wideStatements ())
  rw [done, runAdd, all, runStopped rfl] at within
  revert within
  decide

end Flexbuild.SoftIr
