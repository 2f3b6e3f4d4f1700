import Mathlib.Data.List.Basic
import Flexbuild.SoftIrCreate

/-! What the elements of an execute section mean: assignments one after the other, one branch of
an `if`, a body again and again, and of a switch the first case that the expression falls to. -/
namespace Flexbuild.SoftIr
open Numerals Traces

variable {σ : Type}

def CExecuteCase.ifCase : CExecuteCase → List CExecuteExpression
  | .mk _ _ ifCase => ifCase

def CExecuteCase.hits (m : Meaning σ) (s : σ) (expr : Word) : CExecuteCase → Bool
  | .mk none _ _ => false
  | .mk (some value) none _ => decide (value = expr)
  | .mk (some value) (some most) _ => decide (value ≤ expr) && decide (expr ≤ eval m s most)

def CExecuteCase.tested (m : Meaning σ) (s : σ) (expr : Word) : CExecuteCase → Bool
  | .mk none _ _ => false
  | .mk (some value) most ifCase =>
      if wide value then decide (value = expr)
      else CExecuteCase.hits m s expr (.mk (some value) most ifCase)

inductive Flow (σ : Type) where
  | at_ (todo : List CExecuteExpression) (s : σ)
  | leaving (e : Event)
  | halted

abbrev Selects (σ : Type) := Meaning σ → σ → Word → CExecuteCase → Bool

def chosen (test : CExecuteCase → Bool) (cases : List CExecuteCase)
    (defaultCase : Option (List CExecuteExpression)) : List CExecuteExpression :=
  match cases.find? test with
  | some case => case.ifCase
  | none => defaultCase.getD []

def proceed (selects : Selects σ) (m : Meaning σ) (s : σ) :
    List CExecuteExpression → Option Event × Flow σ
  | [] => (none, .leaving .finish)
  | .assign name value none :: rest =>
      (some (performs m s (.dyadic .ass name value)).1,
        .at_ rest (performs m s (.dyadic .ass name value)).2)
  | .assign name value (some fwoffset) :: rest =>
      (some (performs m s (.dyadic .ass windowOffset fwoffset)).1,
        .at_ (.assign name value none :: .assign windowOffset (.intConst 0) none :: rest)
          (performs m s (.dyadic .ass windowOffset fwoffset)).2)
  | .headerSize _ :: rest => proceed selects m s rest
  | .if_ expr ifTrue ifFalse :: rest =>
      (none, .at_ ((if holds m s expr then ifTrue.getD [] else ifFalse.getD []) ++ rest) s)
  | .loop expr loopBody :: rest =>
      (none, .at_ (if holds m s expr then loopBody ++ .loop expr loopBody :: rest else rest) s)
  | .inline_ data :: rest => (some (.inline_ data), .at_ rest (m.inline_ data s))
  | .switch expr cases defaultCase :: rest =>
      (none, .at_ (chosen (selects m s (eval m s expr)) cases defaultCase ++ rest) s)

def structured (selects : Selects σ) (m : Meaning σ) : Machine (Flow σ) Event
  | .at_ todo s => some (proceed selects m s todo)
  | .leaving e => some (some e, .halted)
  | .halted => none

def agrees (m : Meaning σ) (s : σ) (expr : Word) : List CExecuteCase → Prop
  | [] => True
  | case :: rest => case.tested m s expr = case.hits m s expr ∧
      (case.hits m s expr = false → agrees m s expr rest)

def Agreeing (m : Meaning σ) : Flow σ → Prop
  | .at_ todo s => within s todo
  | _ => True
where
  within (s : σ) : List CExecuteExpression → Prop
    | .headerSize _ :: rest => within s rest
    | .switch expr cases _ :: _ => agrees m s (eval m s expr) cases
    | _ => True

variable {cases : List CExecuteCase}

theorem agreesFind {m : Meaning σ} {s : σ} {expr : Word} (agree : agrees m s expr cases) :
    cases.find? (CExecuteCase.tested m s expr) = cases.find? (CExecuteCase.hits m s expr) := by
  induction cases with
  | nil => rfl
  | cons case rest ih =>
    obtain ⟨same, later⟩ := agree
    rw [List.find?_cons, List.find?_cons, same]
    cases hit : case.hits m s expr with
    | true => rfl
    | false => exact ih (later hit)

theorem agreesNarrow {m : Meaning σ} {s : σ} {expr : Word}
    (narrow : ∀ value most ifCase, .mk (some value) (some most) ifCase ∈ cases → wide value = false) :
    agrees m s expr cases := by
  induction cases with
  | nil => trivial
  | cons case rest ih =>
    refine ⟨?_, fun _ => ih (fun value most ifCase mem => narrow value most ifCase
      (List.mem_cons_of_mem _ mem))⟩
    obtain ⟨value, most, ifCase⟩ := case
    cases value with
    | none => rfl
    | some value =>
      cases most with
      | none =>
        rw [CExecuteCase.tested]
        split <;> rfl
      | some most => rw [CExecuteCase.tested, narrow value most ifCase List.mem_cons_self, if_neg nofun]

theorem proceedAgreeing {m : Meaning σ} {s : σ} {todo : List CExecuteExpression}
    (agree : Agreeing m (.at_ todo s)) :
    proceed CExecuteCase.tested m s todo = proceed CExecuteCase.hits m s todo := by
  induction todo with
  | nil => rfl
  | cons e rest ih =>
    cases e with
    | headerSize value => exact ih agree
    | switch expr cases defaultCase =>
      simp only [proceed, chosen]
      rw [agreesFind agree]
    | assign name value fwoffset => cases fwoffset <;> rfl
    | _ => rfl

mutual

def CExecuteExpression.narrow : CExecuteExpression → Bool
  | .assign _ _ _ => true
  | .headerSize _ => true
  | .inline_ _ => true
  | .if_ _ none none => true
  | .if_ _ (some ifTrue) none => allNarrow ifTrue
  | .if_ _ none (some ifFalse) => allNarrow ifFalse
  | .if_ _ (some ifTrue) (some ifFalse) => allNarrow ifTrue && allNarrow ifFalse
  | .loop _ loopBody => allNarrow loopBody
  | .switch _ cases none => casesNarrow cases
  | .switch _ cases (some defaultCase) => casesNarrow cases && allNarrow defaultCase

def allNarrow : List CExecuteExpression → Bool
  | [] => true
  | e :: rest => e.narrow && allNarrow rest

def casesNarrow : List CExecuteCase → Bool
  | [] => true
  | .mk value maxValue ifCase :: rest =>
      !(value.any wide && maxValue.isSome) && allNarrow ifCase && casesNarrow rest

end

theorem narrowAppend (first second : List CExecuteExpression) :
    allNarrow (first ++ second) = (allNarrow first && allNarrow second) := by
  induction first with
  | nil => rfl
  | cons e rest ih => rw [List.cons_append, allNarrow, allNarrow, ih, Bool.and_assoc]

theorem narrowCase {value : Option Word} {most : Option CENode}
    {ifCase : List CExecuteExpression} (narrow : casesNarrow cases = true)
    (mem : .mk value most ifCase ∈ cases) :
    (value.any wide && most.isSome) = false ∧ allNarrow ifCase = true := by
  induction cases with
  | nil => exact absurd mem List.not_mem_nil
  | cons case rest ih =>
    obtain ⟨value', most', ifCase'⟩ := case
    rw [casesNarrow, Bool.and_eq_true, Bool.and_eq_true, Bool.not_eq_true'] at narrow
    rcases List.mem_cons.mp mem with same | mem
    · cases same
      exact narrow.1
    · exact ih narrow.2 mem

variable {defaultCase : Option (List CExecuteExpression)}

theorem narrowSwitch {expr : CENode} (narrow : (CExecuteExpression.switch expr cases defaultCase).narrow = true) :
    casesNarrow cases = true ∧ allNarrow (defaultCase.getD []) = true := by
  cases defaultCase with
  | none => exact ⟨narrow, rfl⟩
  | some els => exact Bool.and_eq_true_iff.mp narrow

theorem narrowChosen {expr : CENode} (test : CExecuteCase → Bool)
    (narrow : (CExecuteExpression.switch expr cases defaultCase).narrow = true) :
    allNarrow (chosen test cases defaultCase) = true := by
  obtain ⟨cases_, default_⟩ := narrowSwitch narrow
  unfold chosen
  split
  · rename_i case found
    obtain ⟨value, most, ifCase⟩ := case
    exact (narrowCase cases_ (List.mem_of_find?_eq_some found)).2
  · exact default_

theorem narrowIf {expr : CENode} {ifTrue ifFalse : Option (List CExecuteExpression)}
    (narrow : (CExecuteExpression.if_ expr ifTrue ifFalse).narrow = true) :
    allNarrow (ifTrue.getD []) = true ∧ allNarrow (ifFalse.getD []) = true := by
  cases ifTrue with
  | none =>
    cases ifFalse with
    | none => exact ⟨rfl, rfl⟩
    | some no => exact ⟨rfl, narrow⟩
  | some yes =>
    cases ifFalse with
    | none => exact ⟨narrow, rfl⟩
    | some no => exact Bool.and_eq_true_iff.mp narrow

def Flow.narrow : Flow σ → Prop
  | .at_ todo _ => allNarrow todo = true
  | _ => True

theorem proceedNarrow (selects : Selects σ) (m : Meaning σ) {s : σ} {todo : List CExecuteExpression}
    (narrow : allNarrow todo = true) : (proceed selects m s todo).2.narrow := by
  induction todo with
  | nil => trivial
  | cons e rest ih =>
    rw [allNarrow, Bool.and_eq_true] at narrow
    obtain ⟨first, others⟩ := narrow
    cases e with
    | assign name value fwoffset =>
      cases fwoffset with
      | none => exact others
      | some fwoffset =>
        rw [proceed, Flow.narrow, allNarrow, allNarrow, others]
        rfl
    | headerSize value => exact ih others
    | inline_ data => exact others
    | if_ expr ifTrue ifFalse =>
      obtain ⟨yes, no⟩ := narrowIf first
      rw [proceed, Flow.narrow, narrowAppend, others, Bool.and_true]
      split
      · exact yes
      · exact no
    | loop expr loopBody =>
      rw [proceed, Flow.narrow]
      split
      · rw [narrowAppend, allNarrow, others, first, Bool.and_true, Bool.and_true]
        exact first
      · exact others
    | switch expr cases defaultCase =>
      rw [proceed, Flow.narrow, narrowAppend, others, Bool.and_true]
      exact narrowChosen _ first

theorem agreeingNarrow (m : Meaning σ) {a : Flow σ} (narrow : a.narrow) : Agreeing m a := by
  cases a with
  | at_ todo s =>
    rw [Flow.narrow] at narrow
    induction todo with
    | nil => trivial
    | cons e rest ih =>
      rw [allNarrow, Bool.and_eq_true] at narrow
      cases e with
      | headerSize value => exact ih narrow.2
      | switch expr cases defaultCase =>
        refine agreesNarrow ?_
        intro value most ifCase mem
        have apart := (narrowCase (narrowSwitch narrow.1).1 mem).1
        rwa [Option.any_some, Option.isSome_some, Bool.and_true] at apart
      | _ => trivial
  | leaving e => trivial
  | halted => trivial

theorem narrowRuns (m : Meaning σ) {a : Flow σ} (narrow : a.narrow) (k : Nat) :
    Agreeing m (run (structured CExecuteCase.hits m) k a).2 := by
  induction k generalizing a with
  | zero => exact agreeingNarrow m narrow
  | succ k ih =>
    cases a with
    | at_ todo s =>
      rw [runStep (show structured CExecuteCase.hits m (.at_ todo s) =
        some ((proceed CExecuteCase.hits m s todo).1, (proceed CExecuteCase.hits m s todo).2) from rfl)]
      exact ih (proceedNarrow _ m narrow)
    | leaving e =>
      rw [runStep (show structured CExecuteCase.hits m (.leaving e) = some (some e, .halted) from rfl)]
      exact ih trivial
    | halted =>
      rw [runStopped rfl]
      trivial

theorem agreeingFollows (m : Meaning σ) :
    Follows (structured CExecuteCase.hits m) (structured CExecuteCase.tested m)
      (fun a b => a = b ∧ ∀ k, Agreeing m (run (structured CExecuteCase.hits m) k a).2) := by
  have same : ∀ a, Agreeing m a →
      structured CExecuteCase.tested m a = structured CExecuteCase.hits m a := by
    intro a agree
    cases a with
    | at_ todo s => rw [structured, structured, proceedAgreeing agree]
    | leaving e => rfl
    | halted => rfl
  constructor
  · rintro a b ⟨rfl, agree⟩ stopped
    rw [same a (agree 0)]
    exact stopped
  · rintro a b e a' ⟨rfl, agree⟩ step
    refine ⟨0, a', runOne ?_, rfl, ?_⟩
    · rw [same a (agree 0)]
      exact step
    · intro k
      have later := agree (k + 1)
      rwa [runStep step] at later

end Flexbuild.SoftIr
