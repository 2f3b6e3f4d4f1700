import Flexbuild.SoftIr

/-! The revision of a protocol's statements: conjunctions and disjunctions become several jumps,
negated jumps become plain ones, and negations and complements are rewritten, pass by pass until
nothing changes. -/
namespace Flexbuild.SoftIr
open Numerals Traces

inductive Fault where
  | expectedCondNot
  deriving DecidableEq, Repr

def CENode.size : CENode → Nat
  | .objRef _ => 1
  | .intConst _ => 1
  | .dyadic _ l r => l.size + r.size + 1
  | .monadic _ e => e.size + 1

def reviseNot : CENode → Except Fault CENode
  | .dyadic .less l r => .ok (.dyadic .greaterEqu l r)
  | .dyadic .greaterEqu l r => .ok (.dyadic .less l r)
  | .dyadic .lessEqu l r => .ok (.dyadic .greater l r)
  | .dyadic .greater l r => .ok (.dyadic .lessEqu l r)
  | .dyadic .equ l r => .ok (.dyadic .notEqu l r)
  | .dyadic .notEqu l r => .ok (.dyadic .equ l r)
  | .dyadic .and l r =>
      match reviseNot l with
      | .error f => .error f
      | .ok l =>
          match reviseNot r with
          | .error f => .error f
          | .ok r => .ok (.dyadic .or l r)
  | .dyadic .or l r =>
      match reviseNot l with
      | .error f => .error f
      | .ok l =>
          match reviseNot r with
          | .error f => .error f
          | .ok r => .ok (.dyadic .and l r)
  | .monadic .not e => .ok e
  | _ => .error .expectedCondNot

def stripNot (revised : Bool) : CENode → Except Fault (CENode × Bool)
  | .monadic .not e =>
      match reviseNot e with
      | .error f => .error f
      | .ok e => .ok (e, true)
  | e => .ok (e, revised)

def reviseBitnot (revised : Bool) : CENode → CENode × Bool
  | .monadic .bitNot e => (.dyadic .xor e (.intConst (BitVec.allOnes 64)), true)
  | e => (e, revised)

-- The top of an expression, as `reviseStatement` leaves it before it goes down.
def reviseTop (revised : Bool) (e : CENode) : Except Fault (CENode × Bool) :=
  match stripNot revised e with
  | .error f => .error f
  | .ok (e, revised) => .ok (reviseBitnot revised e)

theorem sizePositive (e : CENode) : 0 < e.size := by
  cases e with
  | objRef o => exact Nat.one_pos
  | intConst v => exact Nat.one_pos
  | dyadic type l r => exact Nat.succ_pos _
  | monadic type d => exact Nat.succ_pos _

theorem reviseNotSize {e e' : CENode} (ok : reviseNot e = .ok e') : e'.size ≤ e.size := by
  fun_induction reviseNot e generalizing e' with
  | case1 l r => cases ok; exact Nat.le_refl _
  | case2 l r => cases ok; exact Nat.le_refl _
  | case3 l r => cases ok; exact Nat.le_refl _
  | case4 l r => cases ok; exact Nat.le_refl _
  | case5 l r => cases ok; exact Nat.le_refl _
  | case6 l r => cases ok; exact Nat.le_refl _
  | case7 l r f left => cases ok
  | case8 l r l' left f right => cases ok
  | case9 l r l' left r' right ihL ihR =>
    cases ok
    have l := ihL left
    have r := ihR right
    simp only [CENode.size]
    omega
  | case10 l r f left => cases ok
  | case11 l r l' left f right => cases ok
  | case12 l r l' left r' right ihL ihR =>
    cases ok
    have l := ihL left
    have r := ihR right
    simp only [CENode.size]
    omega
  | case13 e => cases ok; exact Nat.le_succ _
  | case14 e => cases ok

theorem reviseTopSize {e e' : CENode} {revised revised' : Bool}
    (ok : reviseTop revised e = .ok (e', revised')) :
    (∀ type l r, e' = .dyadic type l r → l.size < e.size ∧ r.size < e.size) ∧
      (∀ type d, e' = .monadic type d → d.size < e.size) := by
  have within : ∀ {x y : CENode} {b c : Bool}, x.size ≤ e.size → reviseBitnot b x = (y, c) →
      (∀ type l r, y = .dyadic type l r → l.size < e.size ∧ r.size < e.size) ∧
        (∀ type d, y = .monadic type d → d.size < e.size) := by
    intro x y b c le bitnot
    unfold reviseBitnot at bitnot
    split at bitnot
    · rename_i d
      cases bitnot
      have some_ := sizePositive d
      simp only [CENode.size] at le
      refine ⟨?_, nofun⟩
      intro type l r same
      cases same
      simp only [CENode.size]
      omega
    · cases bitnot
      refine ⟨?_, ?_⟩
      · intro type l r same
        subst same
        simp only [CENode.size] at le
        omega
      · intro type d same
        subst same
        simp only [CENode.size] at le
        omega
  unfold reviseTop at ok
  split at ok
  · cases ok
  · rename_i x b strip
    have le : x.size ≤ e.size := by
      unfold stripNot at strip
      split at strip
      · split at strip
        · cases strip
        · rename_i not_
          cases strip
          exact Nat.le_succ_of_le (reviseNotSize not_)
      · cases strip
        exact Nat.le_refl _
    exact within le (Except.ok.inj ok)

def reviseStatement (revised : Bool) (e : CENode) : Except Fault (CENode × Bool) :=
  match _top : reviseTop revised e with
  | .error f => .error f
  | .ok (.dyadic type l r, revised) =>
      match reviseStatement revised l with
      | .error f => .error f
      | .ok (l, revised) =>
          match reviseStatement revised r with
          | .error f => .error f
          | .ok (r, revised) => .ok (.dyadic type l r, revised)
  | .ok (.monadic type d, revised) =>
      match reviseStatement revised d with
      | .error f => .error f
      | .ok (d, revised) => .ok (.monadic type d, revised)
  | .ok (e, revised) => .ok (e, revised)
termination_by e.size
decreasing_by
  · exact ((reviseTopSize _top).1 _ _ _ rfl).1
  · exact ((reviseTopSize _top).1 _ _ _ rfl).2
  · exact (reviseTopSize _top).2 _ _ rfl

def reviseAnd (count : Nat) (revised : Bool) : List CStatement → List CStatement × Nat × Bool
  | .ifGoto l (.dyadic .and a b) :: rest =>
      let falseL := uniqueName (count + 1)
      (.ifNGoto (.named falseL) a :: .ifNGoto (.named falseL) b :: .goto l .initial none ::
        .label falseL :: rest, count + 1, true)
  | ss => (ss, count, revised)

def reviseOr (revised : Bool) : List CStatement → List CStatement × Bool
  | .ifGoto l (.dyadic .or a b) :: rest => (.ifGoto l a :: .ifGoto l b :: rest, true)
  | ss => (ss, revised)

def reviseIfngoto (revised : Bool) : List CStatement → Except Fault (List CStatement × Bool)
  | .ifNGoto l e :: rest =>
      match reviseNot e with
      | .error f => .error f
      | .ok e => .ok (.ifGoto l e :: rest, true)
  | ss => .ok (ss, revised)

def reviseExpr (revised : Bool) : List CStatement → Except Fault (List CStatement × Bool)
  | s :: rest =>
      match s.expr with
      | none => .ok (s :: rest, revised)
      | some e =>
          match reviseStatement revised e with
          | .error f => .error f
          | .ok (e, revised) => .ok (s.setExpr e :: rest, revised)
  | [] => .ok ([], revised)

-- One turn of the `for` loop, on the statements from the current one on.
def reviseHead (count : Nat) (revised : Bool) (ss : List CStatement) :
    Except Fault (List CStatement × Nat × Bool) :=
  let (ss, count, revised) := reviseAnd count revised ss
  let (ss, revised) := reviseOr revised ss
  match reviseIfngoto revised ss with
  | .error f => .error f
  | .ok (ss, revised) =>
      match reviseExpr revised ss with
      | .error f => .error f
      | .ok (ss, revised) => .ok (ss, count, revised)

def CStatement.bulk (s : CStatement) : Nat :=
  match s.expr with
  | none => 1
  | some e => 4 * e.size + 1

def bulk (ss : List CStatement) : Nat := (ss.map CStatement.bulk).sum

section Bulk

variable {count count' : Nat} {revised revised' : Bool} {ss ss' more : List CStatement}
  {t : CStatement}

theorem bulkCons (s : CStatement) (ss : List CStatement) : bulk (s :: ss) = s.bulk + bulk ss := by
  simp [bulk]

theorem bulkTail (ss : List CStatement) : ss = [] ∨ bulk ss.tail < bulk ss := by
  cases ss with
  | nil => exact .inl rfl
  | cons s rest =>
    have some_ : 0 < s.bulk := by
      unfold CStatement.bulk
      split
      · exact Nat.one_pos
      · exact Nat.succ_pos _
    rw [bulkCons]
    exact .inr (Nat.lt_add_of_pos_left some_)

theorem reviseAndBulk :
    (reviseAnd count revised ss).1 = ss ∨
      bulk (reviseAnd count revised ss).1.tail < bulk ss ∧
        ∃ l e rest, (reviseAnd count revised ss).1 = .ifNGoto l e :: rest := by
  unfold reviseAnd
  split
  · refine .inr ⟨?_, _, _, _, rfl⟩
    simp only [List.tail_cons, bulkCons, CStatement.bulk, CStatement.expr, CENode.size]
    omega
  · exact .inl rfl

theorem reviseOrBulk :
    (reviseOr revised ss).1 = ss ∨ bulk (reviseOr revised ss).1.tail < bulk ss := by
  unfold reviseOr
  split
  · refine .inr ?_
    simp only [List.tail_cons, bulkCons, CStatement.bulk, CStatement.expr, CENode.size]
    omega
  · exact .inl rfl

theorem reviseIfngotoTail (ok : reviseIfngoto revised ss = .ok (ss', revised')) :
    ss'.tail = ss.tail := by
  unfold reviseIfngoto at ok
  split at ok
  · split at ok
    · cases ok
    · cases ok
      rfl
  · cases ok
    rfl

theorem reviseExprTail (ok : reviseExpr revised ss = .ok (ss', revised')) : ss'.tail = ss.tail := by
  unfold reviseExpr at ok
  split at ok
  · split at ok
    · cases ok
      rfl
    · split at ok
      · cases ok
      · cases ok
        rfl
  · cases ok
    rfl

theorem reviseHeadBulk (ok : reviseHead count revised ss = .ok (t :: more, count', revised')) :
    bulk more < bulk ss := by
  have shrunk : ∀ {u : List CStatement}, u = ss ∨ bulk u.tail < bulk ss → u.tail = more → u ≠ [] →
      bulk more < bulk ss := by
    rintro u (rfl | less) rfl some_
    · exact (bulkTail u).resolve_left some_
    · exact less
  unfold reviseHead at ok
  dsimp only at ok
  split at ok
  · cases ok
  · rename_i ss₁ revised₁ ifngoto
    split at ok
    · cases ok
    · rename_i ss₂ revised₂ expr
      cases ok
      have tail := (reviseExprTail expr).trans (reviseIfngotoTail ifngoto)
      rw [List.tail_cons] at tail
      rcases @reviseAndBulk count revised ss with same | ⟨less, l, e, rest, head⟩
      · rw [same] at tail
        rcases @reviseOrBulk (reviseAnd count revised ss).2.2 ss with same' | less
        · rw [same'] at tail
          refine shrunk (.inl rfl) tail.symm ?_
          rintro rfl
          simp [reviseAnd, reviseOr, reviseIfngoto] at ifngoto
          rw [ifngoto.1] at expr
          simp [reviseExpr] at expr
        · rw [tail]
          exact less
      · have same : (reviseOr (reviseAnd count revised ss).2.2 (reviseAnd count revised ss).1).1 =
            (reviseAnd count revised ss).1 := by
          rw [head]
          rfl
        rw [same] at tail
        rw [tail]
        exact less

end Bulk

-- The `for` loop. The count is that of `currentUniqueName`.
def revisePass (count : Nat) (revised : Bool) (ss : List CStatement) :
    Except Fault (List CStatement × Nat × Bool) :=
  match _head : reviseHead count revised ss with
  | .error f => .error f
  | .ok ([], count, revised) => .ok ([], count, revised)
  | .ok (t :: more, count, revised) =>
      match revisePass count revised more with
      | .error f => .error f
      | .ok (done, count, revised) => .ok (t :: done, count, revised)
termination_by bulk ss
decreasing_by exact reviseHeadBulk _head

-- The `while` loop, for so many passes at most; no result when these are not enough.
def reviseWhile : Nat → Nat → List CStatement → Option (Except Fault (List CStatement × Nat))
  | 0, _, _ => none
  | passes + 1, count, ss =>
      match revisePass count false ss with
      | .error f => some (.error f)
      | .ok (ss, count, true) => reviseWhile passes count ss
      | .ok (ss, count, false) => some (.ok (ss, count))

end Flexbuild.SoftIr
