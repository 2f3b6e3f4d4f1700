import Flexbuild.SoftIrCreatedRuns
import Flexbuild.SoftIrRevised

/-! The two passes in a row. What `checkExprValue` accepts has a condition where one is expected and
nowhere else, so that the revision refuses nothing that was created. -/
namespace Flexbuild.SoftIr
open Numerals Traces Results

section Checking

variable {count next : Nat} {code : List CStatement} {expr e : CENode}

theorem mixedTyped {type : Dyadic} {l r : CENode} (mix : checkMix (.dyadic type l r) = .ok ())
    (left : if l.isCond then Cond l else Arith l) (right : if r.isCond then Cond r else Arith r) :
    if (CENode.dyadic type l r).isCond then Cond (.dyadic type l r) else Arith (.dyadic type l r) := by
  have apart (plain : (if l.isCond || r.isCond then (throw .unexpectedCond : Except Refusal Unit)
      else pure ()) = .ok ()) : Arith l ∧ Arith r := by
    split at plain
    · cases plain
    · rename_i neither
      rw [Bool.or_eq_true, not_or] at neither
      rw [if_neg neither.1] at left
      rw [if_neg neither.2] at right
      exact ⟨left, right⟩
  have joined (both : (if l.isCond && r.isCond then pure () else throw .expectedCondAnd :
      Except Refusal Unit) = .ok ()) : Cond l ∧ Cond r := by
    split at both
    · rename_i conds
      rw [Bool.and_eq_true] at conds
      rw [if_pos conds.1] at left
      rw [if_pos conds.2] at right
      exact ⟨left, right⟩
    · cases both
  cases type
  case and | or => exact .join rfl (joined mix).1 (joined mix).2
  case less | greater | lessEqu | greaterEqu | equ | notEqu =>
    exact .compare rfl (apart mix).1 (apart mix).2
  all_goals exact .dyadic rfl rfl (apart mix).1 (apart mix).2

theorem checkedTyped (checked : checkExprValue e = .ok ()) : if e.isCond then Cond e else Arith e := by
  induction e with
  | objRef o => exact .objRef o
  | intConst v => exact .intConst v
  | dyadic type l r left right =>
    simp only [checkExprValue, bindOk] at checked
    obtain ⟨_, -, _, mix, _, leftOk, rightOk⟩ := checked
    exact mixedTyped mix (left leftOk) (right rightOk)
  | monadic type node ih =>
    simp only [checkExprValue, bindOk] at checked
    obtain ⟨_, mix, nodeOk⟩ := checked
    have typed := ih nodeOk
    cases type with
    | not =>
      rw [checkMix] at mix
      split at mix
      · rename_i cond
        rw [if_pos cond] at typed
        exact .not typed
      · cases mix
    | bitNot =>
      rw [checkMix] at mix
      · split at mix
        · cases mix
        · rename_i plain
          rw [if_neg plain] at typed
          exact .bitNot typed
      · intro impossible
        cases impossible

theorem valueTyped (made : createIRExprValue expr = .ok e) :
    if expr.isCond then Cond expr else Arith expr := by
  simp only [createIRExprValue, bindOk] at made
  obtain ⟨_, checked, -⟩ := made
  exact checkedTyped checked

theorem arithTyped (made : createIRExprValue expr = .ok e) (plain : ¬e.isCond = true) : Arith e := by
  have typed := valueTyped made
  cases createdExprValue made
  rwa [if_neg plain] at typed

theorem condTyped (made : createIRCond expr = .ok e) : Cond e := by
  simp only [createIRCond, bindOk] at made
  obtain ⟨_, valueOk, made⟩ := made
  split at made
  · rename_i cond
    cases made
    have typed := valueTyped valueOk
    cases createdExprValue valueOk
    rwa [if_pos cond] at typed
  · cases made

theorem assignTyped {name value : CENode} (made : createIRAssignOne name value = .ok code) :
    ∀ c ∈ code, Typed c := by
  simp only [createIRAssignOne, bindOk] at made
  obtain ⟨left, -, made⟩ := made
  split at made
  · split at made
    · simp only [bindOk] at made
      obtain ⟨right, valueOk, made⟩ := made
      split at made
      · cases made
      · rename_i plain
        cases made
        exact List.forall_mem_singleton.mpr
          (.expression (.dyadic rfl rfl (.objRef _) (arithTyped valueOk plain)))
    · cases made
  · cases made

variable {finalL : Text} {table table' : List (Nat × CLabel)} {tests executes : List CStatement}

theorem flushTyped (pending : table ≠ [] → Arith expr) : ∀ c ∈ flushTable expr table, Typed c := by
  unfold flushTable
  split
  · exact List.forall_mem_nil _
  · rename_i some_
    exact List.forall_mem_singleton.mpr (.switch _ (pending fun none => some_ (by rw [none]; rfl)))

-- A table that waits for more cases had its expression checked with the first one.
theorem testTyped {value : Word} {maxValue : Option CENode} {last : Bool}
    (pending : table ≠ [] → Arith expr)
    (made : createIRTest expr table count value maxValue last = .ok (tests, table', next)) :
    (∀ c ∈ tests, Typed c) ∧ (table' ≠ [] → Arith expr) := by
  have shapes := createdTest made
  unfold createIRTest at made
  dsimp only at made
  rcases shapes with ⟨large, rfl, -, rfl⟩ | ⟨small, most, rfl, rfl, -, rfl⟩ | ⟨small, rfl, -, shape⟩
  · rw [if_pos large, bindOk] at made
    obtain ⟨_, equalOk, -⟩ := made
    have cond : Cond (.dyadic .equ (.intConst value) expr) := valueTyped equalOk
    exact ⟨List.forall_mem_append.mpr ⟨flushTyped pending, List.forall_mem_singleton.mpr (.ifGoto _ cond)⟩,
      fun some_ => absurd rfl some_⟩
  · rw [small, if_neg Bool.false_ne_true] at made
    simp only [bindOk] at made
    obtain ⟨_, belowOk, _, aboveOk, -⟩ := made
    have low : Cond (.dyadic .greater (.intConst value) expr) := valueTyped belowOk
    have high : Cond (.dyadic .less most expr) := valueTyped aboveOk
    refine ⟨List.forall_mem_append.mpr ⟨flushTyped pending, ?_⟩, fun some_ => absurd rfl some_⟩
    simp only [List.forall_mem_cons]
    exact ⟨.ifGoto _ low, .ifGoto _ high, .jump _ _, .label _, List.forall_mem_nil _⟩
  · have arith : Arith expr := by
      rw [small, if_neg Bool.false_ne_true] at made
      dsimp only at made
      split at made
      · rw [bindOk] at made
        obtain ⟨_, valueOk, made⟩ := made
        cases createdExprValue valueOk
        split at made
        · cases made
        · rename_i plain
          exact arithTyped valueOk plain
      · rename_i some_
        exact pending fun none => some_ (by rw [none]; rfl)
    rcases shape with ⟨rfl, -, -⟩ | ⟨rfl, rfl⟩
    · exact ⟨List.forall_mem_nil _, fun _ => arith⟩
    · exact ⟨List.forall_mem_singleton.mpr (.switch _ arith), fun some_ => absurd rfl some_⟩

mutual

theorem expressionTyped {count next : Nat} {code : List CStatement} :
    ∀ e : CExecuteExpression, createIRExpression count e = .ok (code, next) → ∀ c ∈ code, Typed c
  | .assign name value none, made => by
    simp only [createIRExpression, bindOk, pureOk, createIRAssign] at made
    obtain ⟨statements, one, made⟩ := made
    cases made
    exact assignTyped one
  | .assign name value (some offset), made => by
    simp only [createIRExpression, bindOk, pureOk, createIRAssign] at made
    obtain ⟨statements, ⟨before, beforeOk, one, oneOk, behind, behindOk, rfl⟩, made⟩ := made
    cases made
    simp only [List.forall_mem_append]
    exact ⟨⟨assignTyped beforeOk, assignTyped oneOk⟩, assignTyped behindOk⟩
  | .headerSize _, made => by
    obtain ⟨rfl, -⟩ := createdHeaderSize made
    exact List.forall_mem_nil _
  | .inline_ _, made => by
    obtain ⟨rfl, -⟩ := createdInline made
    exact List.forall_mem_singleton.mpr (.inline_ _)
  | .if_ _ none _, made => by
    rw [createIRExpression] at made
    cases made
  | .if_ _ (some ifTrue) none, made => by
    simp only [createIRExpression, bindOk, pureOk] at made
    obtain ⟨cond, condOk, ⟨body, _⟩, bodyOk, made⟩ := made
    cases made
    simp only [List.forall_mem_cons, List.forall_mem_append, List.cons_append]
    exact ⟨.ifNGoto _ (condTyped condOk), expressionsTyped ifTrue bodyOk, .label _,
      List.forall_mem_nil _⟩
  | .if_ _ (some ifTrue) (some ifFalse), made => by
    simp only [createIRExpression, bindOk, pureOk] at made
    obtain ⟨cond, condOk, ⟨others, middle⟩, othersOk, ⟨body, _⟩, bodyOk, made⟩ := made
    cases made
    simp only [List.forall_mem_cons, List.forall_mem_append, List.cons_append, List.append_assoc]
    exact ⟨.ifGoto _ (condTyped condOk), expressionsTyped ifFalse othersOk, .jump _ _, .label _,
      expressionsTyped ifTrue bodyOk, .label _, List.forall_mem_nil _⟩
  | .loop _ loopBody, made => by
    simp only [createIRExpression, bindOk, pureOk] at made
    obtain ⟨cond, condOk, ⟨body, _⟩, bodyOk, made⟩ := made
    cases made
    simp only [List.forall_mem_cons, List.forall_mem_append, List.cons_append]
    exact ⟨.label _, .ifNGoto _ (condTyped condOk), expressionsTyped loopBody bodyOk, .jump _ _, .label _,
      List.forall_mem_nil _⟩
  | .switch _ cases default, made => by
    obtain ⟨-, tests, executes, middle, otherwise, casesOk, defaultOk, rfl⟩ := createdSwitch made
    obtain ⟨tested, executed⟩ := casesTyped cases (fun some_ => absurd rfl some_) casesOk
    have rest : ∀ c ∈ otherwise, Typed c := by
      cases default with
      | none =>
        obtain ⟨rfl, -⟩ := createdNil defaultOk
        exact List.forall_mem_nil _
      | some els => exact expressionsTyped els defaultOk
    simp only [List.forall_mem_cons, List.forall_mem_append, List.cons_append, List.append_assoc]
    exact ⟨tested, rest, .jump _ _, executed, .label _, List.forall_mem_nil _⟩

theorem expressionsTyped {count next : Nat} {code : List CStatement} :
    ∀ es : List CExecuteExpression, createIRExpressions count es = .ok (code, next) → ∀ c ∈ code, Typed c
  | [], made => by
    obtain ⟨rfl, -⟩ := createdNil made
    exact List.forall_mem_nil _
  | e :: rest, made => by
    obtain ⟨one, middle, others, oneOk, othersOk, rfl⟩ := createdCons made
    exact List.forall_mem_append.mpr ⟨expressionTyped e oneOk, expressionsTyped rest othersOk⟩

theorem casesTyped {count next : Nat} {finalL : Text} {expr : CENode} {table : List (Nat × CLabel)}
    {tests executes : List CStatement} :
    ∀ cs : List CExecuteCase, (table ≠ [] → Arith expr) →
      createIRCases finalL expr table count cs = .ok (tests, executes, next) →
      (∀ c ∈ tests, Typed c) ∧ ∀ c ∈ executes, Typed c
  | [], _, made => by
    obtain ⟨rfl, rfl, -⟩ := createdNoCase made
    exact ⟨List.forall_mem_nil _, List.forall_mem_nil _⟩
  | .mk none _ _ :: _, _, made => absurd made createdValue
  | .mk (some value) maxValue ifCase :: rest, pending, made => by
    obtain ⟨test, table', first, body, second, others, bodies, testOk, bodyOk, restOk, rfl, rfl⟩ :=
      createdCase made
    obtain ⟨tested, pending'⟩ := testTyped pending testOk
    obtain ⟨later, executed⟩ := casesTyped rest pending' restOk
    refine ⟨List.forall_mem_append.mpr ⟨tested, later⟩, ?_⟩
    simp only [List.forall_mem_cons, List.forall_mem_append, List.cons_append]
    exact ⟨.label _, expressionsTyped ifCase bodyOk, .jump _ _, executed⟩

end

end Checking

theorem createdSound {count next : Nat} {els : List CExecuteExpression} {code : List CStatement}
    (made : createIRExpressions count els = .ok (code, next)) : Sound next code := by
  have accounts : Accounts count next code (fun _ => False) := expressionsAccounts els made
  have unissued : ∀ n, next < n → uniqueName n ∉ labels code := by
    intro n lt mem
    obtain ⟨i, -, le, same⟩ := accounts.names.issued _ mem
    have := uniqueNameInj same
    omega
  exact ⟨expressionsTyped els made, accounts.names.distinct, unissued,
    fun n lt mem => unissued n lt (accountsAims accounts mem)⟩

theorem frontEndKept {count next : Nat} {els : List CExecuteExpression} {code : List CStatement}
    (made : createIRExpressions count els = .ok (code, next)) :
    ∃ passes ss last, reviseWhile passes next code = some (.ok (ss, last)) ∧ (∀ c ∈ ss, c.lowered) ∧
      (labels ss).Nodup ∧
      ∀ (σ : Type) (m : Meaning σ) (s : σ),
        (∀ k, Agreeing m (run (structured CExecuteCase.hits m) k (.at_ els s)).2) →
        ∀ es, Performs (structured CExecuteCase.hits m) (.at_ els s) es ↔ Does m ss s es := by
  have accounts : Accounts count next code (fun _ => False) := expressionsAccounts els made
  obtain ⟨ss, last, done, same, sound, final⟩ := reviseWhileEnds (createdSound made) (Nat.lt_succ_self _)
  refine ⟨_, ss, last, done, ?_, sound.distinct, ?_⟩
  · intro c mem
    obtain ⟨notNegated, none_⟩ := final c mem
    exact ⟨notNegated, fun e has => plainOfWork (none_ e has)⟩
  · intro σ m s agree es
    have stands : Stands code els code := by
      have all : Stands code (els ++ []) (code ++ []) :=
        .created made ⟨[], by rw [List.nil_append, List.append_nil]⟩ .done
      rwa [List.append_nil, List.append_nil] at all
    exact ((performsIff (agreeingFollows m) ⟨rfl, agree⟩ es).trans
      (performsIff (relatesFollows m accounts.names.distinct) (.at_ s stands) es)).trans (same σ m s es)

theorem frontEndKeptTable : ∃ ss, (labels ss).Nodup ∧ Does (constant 7) ss ()
    [.assign ⟨.wo, 0, 0⟩ 4, parsedAs 2, .assign ⟨.wo, 0, 0⟩ 0, .finish] := by
  have made : createIRExpressions 0 tableExample = .ok (tableStatements, 8) := by rfl
  obtain ⟨_, ss, _, -, -, distinct, same⟩ := frontEndKept made
  have meant : Performs (structured CExecuteCase.hits (constant 7)) (.at_ tableExample ())
      [.assign ⟨.wo, 0, 0⟩ 4, parsedAs 2, .assign ⟨.wo, 0, 0⟩ 0, .finish] := ⟨6, by decide⟩
  exact ⟨ss, distinct, (same Unit (constant 7) () (narrowRuns _ (by rfl)) _).mp meant⟩

end Flexbuild.SoftIr
