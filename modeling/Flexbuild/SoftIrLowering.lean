import Mathlib.Data.List.Nodup
import Flexbuild.SoftIrRevise

/-! The revision keeps what the statements do and comes to an end: each rewriting is local, does
the same from every state, and brings down a measure of the conditions still to be lowered. -/
namespace Flexbuild.SoftIr
open Numerals Traces

def Dyadic.compares : Dyadic → Bool
  | .less | .greater | .lessEqu | .greaterEqu | .equ | .notEqu => true
  | _ => false

def Dyadic.joins : Dyadic → Bool
  | .and | .or => true
  | _ => false

inductive Arith : CENode → Prop
  | objRef (o : CObject) : Arith (.objRef o)
  | intConst (v : Word) : Arith (.intConst v)
  | dyadic {type : Dyadic} {l r : CENode} (plain : type.compares = false) (single : type.joins = false)
      (left : Arith l) (right : Arith r) : Arith (.dyadic type l r)
  | bitNot {e : CENode} (node : Arith e) : Arith (.monadic .bitNot e)

inductive Cond : CENode → Prop
  | compare {type : Dyadic} {l r : CENode} (compares : type.compares = true) (left : Arith l)
      (right : Arith r) : Cond (.dyadic type l r)
  | join {type : Dyadic} {l r : CENode} (joins : type.joins = true) (left : Cond l)
      (right : Cond r) : Cond (.dyadic type l r)
  | not {e : CENode} (node : Cond e) : Cond (.monadic .not e)

def CENode.work : CENode → Nat
  | .objRef _ => 0
  | .intConst _ => 0
  | .dyadic type l r => l.work + r.work + type.joins.toNat
  | .monadic _ e => e.work + 1

structure Alike (e e' : CENode) : Prop where
  operand : e'.operand = e.operand
  value : ∀ {σ : Type} (m : Meaning σ) (s : σ), eval m s e' = eval m s e
  performed : ∀ {σ : Type} (m : Meaning σ) (s : σ), performs m s e' = performs m s e

structure Lowers (e e' : CENode) : Prop where
  cond : Cond e'
  holds : ∀ {σ : Type} (m : Meaning σ) (s : σ), holds m s e' = holds m s e
  fewer : e'.work ≤ e.work

def Progress (revised revised' : Bool) (same : Prop) (before now : Nat) : Prop :=
  (revised' = revised ∧ same) ∨ (revised' = true ∧ now < before)

section Expressions

variable {e l r l' r' : CENode} {type : Dyadic} {σ : Type}

theorem alikeRefl (e : CENode) : Alike e e :=
  ⟨rfl, fun _ _ => rfl, fun _ _ => rfl⟩

theorem operandObject {o : CObject} (object : e.operand = .object o) : e = .objRef o := by
  cases e with
  | objRef o' =>
    cases object
    rfl
  | _ => cases object

variable {e' : CENode}

theorem objectAlike {o : CObject} (operand : e'.operand = e.operand) : e = .objRef o ↔ e' = .objRef o := by
  constructor
  · rintro rfl
    exact operandObject operand
  · rintro rfl
    exact operandObject operand.symm

theorem evalDyadic {m : Meaning σ} {s : σ} (type : Dyadic) (left : eval m s l' = eval m s l)
    (right : Alike r r') : eval m s (.dyadic type l' r') = eval m s (.dyadic type l r) := by
  cases type <;> simp only [eval, left, right.value, right.operand]

theorem alikeDyadic (type : Dyadic) (left : Alike l l') (right : Alike r r') :
    Alike (.dyadic type l r) (.dyadic type l' r') := by
  refine ⟨rfl, fun m s => evalDyadic type (left.value m s) right, ?_⟩
  intro σ m s
  have value := evalDyadic type (left.value m s) right
  by_cases assigns : type = .ass ∧ ∃ o, l = .objRef o
  · obtain ⟨rfl, o, rfl⟩ := assigns
    rw [operandObject left.operand, performs, performs, right.value]
  · have onlyValue : ∀ {x y}, (∀ o, l = .objRef o ↔ x = .objRef o) →
        performs m s (.dyadic type x y) = (.value (eval m s (.dyadic type x y)), s) := by
      intro x y object
      unfold performs
      split
      · rename_i o _ same
        cases same
        exact absurd ⟨rfl, o, (object o).mpr rfl⟩ assigns
      · rfl
    rw [onlyValue (fun o => objectAlike left.operand), onlyValue (fun o => Iff.rfl), value]

theorem alikeBitNot (alike : Alike e e') :
    Alike (.monadic .bitNot e) (.dyadic .xor e' (.intConst (BitVec.allOnes 64))) := by
  have value : ∀ {σ : Type} (m : Meaning σ) (s : σ),
      eval m s (.dyadic .xor e' (.intConst (BitVec.allOnes 64))) = eval m s (.monadic .bitNot e) := by
    intro σ m s
    simp only [eval, alike.value, BitVec.xor_allOnes]
  refine ⟨rfl, value, ?_⟩
  intro σ m s
  simp only [performs, value]

theorem reviseDyadic {revised b c d : Bool} (top : reviseTop revised e = .ok (.dyadic type l r, b))
    (left : reviseStatement b l = .ok (l', c)) (right : reviseStatement c r = .ok (r', d)) :
    reviseStatement revised e = .ok (.dyadic type l' r', d) := by
  rw [reviseStatement]
  split <;> simp_all

theorem reviseMonadic {monadic : Monadic} {revised b c : Bool}
    (top : reviseTop revised e = .ok (.monadic monadic l, b))
    (node : reviseStatement b l = .ok (l', c)) :
    reviseStatement revised e = .ok (.monadic monadic l', c) := by
  rw [reviseStatement]
  split <;> simp_all

theorem reviseObjRef (revised : Bool) (o : CObject) :
    reviseStatement revised (.objRef o) = .ok (.objRef o, revised) := by
  rw [reviseStatement]
  rfl

theorem reviseIntConst (revised : Bool) (v : Word) :
    reviseStatement revised (.intConst v) = .ok (.intConst v, revised) := by
  rw [reviseStatement]
  rfl

variable {revised b : Bool}

theorem progressLe {same : Prop} {before now : Nat}
    (progress : Progress revised b same before now) (kept : same → now ≤ before) :
    now ≤ before := by
  rcases progress with ⟨-, one⟩ | ⟨-, less⟩
  · exact kept one
  · exact Nat.le_of_lt less

theorem progressBoth {revised b c : Bool} {same same' both : Prop} {before before' now now' extra : Nat}
    (left : Progress revised b same before now) (right : Progress b c same' before' now')
    (kept : same → now ≤ before) (kept' : same' → now' ≤ before') (join : same → same' → both) :
    Progress revised c both (before + before' + extra) (now + now' + extra) := by
  have less := progressLe left kept
  have less' := progressLe right kept'
  rcases left with ⟨rfl, one⟩ | ⟨rfl, down⟩
  · rcases right with ⟨rfl, other⟩ | ⟨rfl, down⟩
    · exact .inl ⟨rfl, join one other⟩
    · exact .inr ⟨rfl, by omega⟩
  · rcases right with ⟨rfl, other⟩ | ⟨rfl, down'⟩
    · exact .inr ⟨rfl, by omega⟩
    · exact .inr ⟨rfl, by omega⟩

theorem reviseArith (arith : Arith e) (revised : Bool) :
    ∃ e' b, reviseStatement revised e = .ok (e', b) ∧ Arith e' ∧ Alike e e' ∧
      Progress revised b (e' = e ∧ e.work = 0) e.work e'.work := by
  induction arith generalizing revised with
  | objRef o => exact ⟨_, _, reviseObjRef revised o, .objRef o, alikeRefl _, .inl ⟨rfl, rfl, rfl⟩⟩
  | intConst v =>
    exact ⟨_, _, reviseIntConst revised v, .intConst v, alikeRefl _, .inl ⟨rfl, rfl, rfl⟩⟩
  | @dyadic type l r plain single left right ihL ihR =>
    obtain ⟨l', b, okL, arithL, alikeL, progressL⟩ := ihL revised
    obtain ⟨r', c, okR, arithR, alikeR, progressR⟩ := ihR b
    refine ⟨_, c, reviseDyadic rfl okL okR, .dyadic plain single arithL arithR,
      alikeDyadic type alikeL alikeR, ?_⟩
    refine progressBoth progressL progressR (by rintro ⟨rfl, -⟩; exact Nat.le_refl _)
      (by rintro ⟨rfl, -⟩; exact Nat.le_refl _) ?_
    rintro ⟨rfl, noneL⟩ ⟨rfl, noneR⟩
    refine ⟨rfl, ?_⟩
    rw [CENode.work, noneL, noneR, single]
    rfl
  | @bitNot e node ih =>
    obtain ⟨e', b, ok, arith, alike, progress⟩ := ih true
    refine ⟨_, b, reviseDyadic rfl ok (reviseIntConst b _), .dyadic rfl rfl arith (.intConst _),
      alikeBitNot alike, ?_⟩
    have le := progressLe progress (by rintro ⟨rfl, -⟩; exact Nat.le_refl _)
    have flagged : b = true := by
      rcases progress with ⟨same, -⟩ | ⟨same, -⟩
      · exact same
      · exact same
    exact .inr ⟨flagged, Nat.lt_succ_of_le le⟩

theorem reviseNotCond (cond : Cond e) :
    ∃ e', reviseNot e = .ok e' ∧ Cond e' ∧ e'.work ≤ e.work ∧
      ∀ {σ : Type} (m : Meaning σ) (s : σ), holds m s e' = !holds m s e := by
  induction cond with
  | @compare type l r compares left right =>
    cases type with
    | less =>
      refine ⟨_, rfl, .compare rfl left right, Nat.le_refl _, ?_⟩
      intro σ m s
      simp only [holds, ← BitVec.not_lt, decide_not]
    | greater =>
      refine ⟨_, rfl, .compare rfl left right, Nat.le_refl _, ?_⟩
      intro σ m s
      simp only [holds, ← BitVec.not_lt, decide_not]
    | lessEqu =>
      refine ⟨_, rfl, .compare rfl left right, Nat.le_refl _, ?_⟩
      intro σ m s
      simp only [holds, ← BitVec.not_le, decide_not]
    | greaterEqu =>
      refine ⟨_, rfl, .compare rfl left right, Nat.le_refl _, ?_⟩
      intro σ m s
      simp only [holds, ← BitVec.not_le, decide_not]
    | equ =>
      refine ⟨_, rfl, .compare rfl left right, Nat.le_refl _, ?_⟩
      intro σ m s
      simp only [holds, ne_eq, decide_not]
    | notEqu =>
      refine ⟨_, rfl, .compare rfl left right, Nat.le_refl _, ?_⟩
      intro σ m s
      simp only [holds, ne_eq, decide_not, Bool.not_not]
    | _ => cases compares
  | @join type l r joins left right ihL ihR =>
    obtain ⟨l', okL, condL, leL, holdsL⟩ := ihL
    obtain ⟨r', okR, condR, leR, holdsR⟩ := ihR
    cases type with
    | and =>
      refine ⟨_, by rw [reviseNot, okL, okR], .join rfl condL condR, ?_, ?_⟩
      · exact Nat.add_le_add_right (Nat.add_le_add leL leR) _
      · intro σ m s
        simp only [holds, holdsL, holdsR, Bool.not_and]
    | or =>
      refine ⟨_, by rw [reviseNot, okL, okR], .join rfl condL condR, ?_, ?_⟩
      · exact Nat.add_le_add_right (Nat.add_le_add leL leR) _
      · intro σ m s
        simp only [holds, holdsL, holdsR, Bool.not_or]
    | _ => cases joins
  | @not e node ih =>
    refine ⟨e, rfl, node, Nat.le_succ _, ?_⟩
    intro σ m s
    simp only [holds, Bool.not_not]

theorem holdsCompare (compares : type.compares = true) (left : Alike l l') (right : Alike r r')
    (m : Meaning σ) (s : σ) : holds m s (.dyadic type l' r') = holds m s (.dyadic type l r) := by
  cases type with
  | less | greater | lessEqu | greaterEqu | equ | notEqu =>
    simp only [holds, left.value, right.value]
  | _ => cases compares

theorem holdsJoin (joins : type.joins = true) {m : Meaning σ} {s : σ}
    (left : holds m s l' = holds m s l) (right : holds m s r' = holds m s r) :
    holds m s (.dyadic type l' r') = holds m s (.dyadic type l r) := by
  cases type with
  | and | or => simp only [holds, left, right]
  | _ => cases joins

theorem comparesSingle (compares : type.compares = true) : type.joins = false := by
  cases type with
  | and | or => cases compares
  | _ => rfl

theorem reviseCompare (compares : type.compares = true) (left : Arith l) (right : Arith r) (top : reviseTop revised e = .ok (.dyadic type l r, b)) :
    ∃ e' c, reviseStatement revised e = .ok (e', c) ∧ Lowers (.dyadic type l r) e' ∧
      Progress b c (e' = .dyadic type l r ∧ (CENode.dyadic type l r).work = 0)
        (CENode.dyadic type l r).work e'.work := by
  obtain ⟨l', c, okL, arithL, alikeL, progressL⟩ := reviseArith left b
  obtain ⟨r', d, okR, arithR, alikeR, progressR⟩ := reviseArith right c
  have progress : Progress b d (CENode.dyadic type l' r' = .dyadic type l r ∧
      (CENode.dyadic type l r).work = 0) (CENode.dyadic type l r).work
        (CENode.dyadic type l' r').work := by
    refine progressBoth progressL progressR (by rintro ⟨rfl, -⟩; exact Nat.le_refl _)
      (by rintro ⟨rfl, -⟩; exact Nat.le_refl _) ?_
    rintro ⟨rfl, noneL⟩ ⟨rfl, noneR⟩
    refine ⟨rfl, ?_⟩
    rw [CENode.work, noneL, noneR, comparesSingle compares]
    rfl
  refine ⟨_, d, reviseDyadic top okL okR, ⟨.compare compares arithL arithR, ?_, ?_⟩, progress⟩
  · exact holdsCompare compares alikeL alikeR
  · exact progressLe progress (by rintro ⟨same, -⟩; rw [same])

def Lowerable (e : CENode) : Prop :=
  ∀ revised, ∃ e' b, reviseStatement revised e = .ok (e', b) ∧ Lowers e e' ∧
    Progress revised b (e' = e) e.work e'.work

theorem reviseJoin (joins : type.joins = true) (left : Lowerable l) (right : Lowerable r) (top : reviseTop revised e = .ok (.dyadic type l r, b)) :
    ∃ e' c, reviseStatement revised e = .ok (e', c) ∧ Lowers (.dyadic type l r) e' ∧
      Progress b c (e' = .dyadic type l r) (CENode.dyadic type l r).work e'.work := by
  obtain ⟨l', c, okL, lowersL, progressL⟩ := left b
  obtain ⟨r', d, okR, lowersR, progressR⟩ := right c
  refine ⟨_, d, reviseDyadic top okL okR, ⟨.join joins lowersL.cond lowersR.cond, ?_, ?_⟩, ?_⟩
  · intro σ m s
    exact holdsJoin joins (lowersL.holds m s) (lowersR.holds m s)
  · exact Nat.add_le_add_right (Nat.add_le_add lowersL.fewer lowersR.fewer) _
  · refine progressBoth progressL progressR (fun _ => lowersL.fewer) (fun _ => lowersR.fewer) ?_
    rintro rfl rfl
    rfl

theorem progressRevised {same : Prop} {before now : Nat}
    (progress : Progress true b same before now) : b = true := by
  rcases progress with ⟨flagged, -⟩ | ⟨flagged, -⟩
  · exact flagged
  · exact flagged

theorem reviseNotted (node : Cond e) (parts : ∀ d, d.size < e.size → Cond d → Lowerable d)
    (revised : Bool) :
    ∃ e', reviseStatement revised (.monadic .not e) = .ok (e', true) ∧
      Lowers (.monadic .not e) e' ∧ e'.work ≤ e.work := by
  obtain ⟨n, ok, cond, fewer, negated⟩ := reviseNotCond node
  have size := reviseNotSize ok
  have lowers : ∀ {e'}, Lowers n e' → Lowers (.monadic .not e) e' ∧ e'.work ≤ e.work := by
    intro e' low
    have le := Nat.le_trans low.fewer fewer
    refine ⟨⟨low.cond, ?_, Nat.le_succ_of_le le⟩, le⟩
    intro σ m s
    rw [low.holds, negated]
    rfl
  have strip : stripNot revised (.monadic .not e) = .ok (n, true) := by rw [stripNot, ok]
  have top : ∀ {x}, reviseBitnot true n = x → reviseTop revised (.monadic .not e) = .ok x := by
    rintro x rfl
    rw [reviseTop, strip]
  cases cond with
  | @compare type l r compares left right =>
    obtain ⟨e', c, done, low, progress⟩ := reviseCompare compares left right (top rfl)
    exact ⟨e', by rw [done, progressRevised progress], lowers low⟩
  | @join type l r joins left right =>
    simp only [CENode.size] at size
    obtain ⟨e', c, done, low, progress⟩ := reviseJoin joins (parts l (by omega) left)
      (parts r (by omega) right) (top rfl)
    exact ⟨e', by rw [done, progressRevised progress], lowers low⟩
  | @not d inner =>
    simp only [CENode.size] at size
    obtain ⟨d', c, done, low, progress⟩ := parts d (by omega) inner true
    refine ⟨_, by rw [reviseMonadic (top rfl) done, progressRevised progress], lowers ⟨.not low.cond,
      ?_, Nat.succ_le_succ low.fewer⟩⟩
    intro σ m s
    simp only [holds, low.holds]

theorem reviseCond (cond : Cond e) : Lowerable e := by
  induction size : e.size using Nat.strongRecOn generalizing e with
  | _ n ih =>
    subst size
    intro revised
    cases cond with
    | @compare type l r compares left right =>
      have top : reviseTop revised (.dyadic type l r) = .ok (.dyadic type l r, revised) := rfl
      obtain ⟨e', c, done, low, progress⟩ := reviseCompare compares left right top
      refine ⟨e', c, done, low, ?_⟩
      rcases progress with ⟨unchanged, same, -⟩ | less
      · exact .inl ⟨unchanged, same⟩
      · exact .inr less
    | @join type l r joins left right =>
      exact reviseJoin joins (ih _ (by simp only [CENode.size]; omega) left rfl)
        (ih _ (by simp only [CENode.size]; omega) right rfl) rfl
    | @not d node =>
      obtain ⟨e', done, low, le⟩ := reviseNotted node
        (fun x less inner => ih _ (Nat.lt_succ_of_lt less) inner rfl) revised
      exact ⟨e', true, done, low, .inr ⟨rfl, Nat.lt_succ_of_le le⟩⟩

theorem condSettled (cond : Cond e) (settled : reviseStatement false e = .ok (e', false)) :
    e.work = 0 ∨ ∃ type l r, type.joins = true ∧ e = .dyadic type l r := by
  cases cond with
  | @compare type l r compares left right =>
    have top : reviseTop false (.dyadic type l r) = .ok (.dyadic type l r, false) := rfl
    obtain ⟨e'', c, done, -, progress⟩ := reviseCompare compares left right top
    cases done.symm.trans settled
    rcases progress with ⟨-, -, none_⟩ | ⟨revised, -⟩
    · exact .inl none_
    · cases revised
  | @join type l r joins left right => exact .inr ⟨type, l, r, joins, rfl⟩
  | @not d node =>
    obtain ⟨e'', done, -, -⟩ := reviseNotted node (fun x _ inner => reviseCond inner) false
    cases done.symm.trans settled

theorem arithSettled (arith : Arith e) (settled : reviseStatement false e = .ok (e', false)) : e.work = 0 := by
  obtain ⟨e'', b, done, -, -, progress⟩ := reviseArith arith false
  cases done.symm.trans settled
  rcases progress with ⟨-, -, none_⟩ | ⟨revised, -⟩
  · exact none_
  · cases revised

end Expressions

end Flexbuild.SoftIr
