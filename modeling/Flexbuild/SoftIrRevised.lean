import Mathlib.Data.List.Nodup
import Flexbuild.SoftIrLowering
import Flexbuild.SoftIrReplaced

/-! The passes over a protocol's statements: each turn of the loop keeps what the list does and its
labels apart, a pass that has revised nothing has found nothing left to lower, and one that has
revised leaves less, so that the passes end. -/
namespace Flexbuild.SoftIr
open Numerals Traces

inductive Typed : CStatement → Prop
  | nop : Typed .nop
  | empty : Typed .empty
  | label (name : Text) : Typed (.label name)
  | jump (l : CLabel) (flags : CStatementFlags) : Typed (.goto l flags none)
  | goto {e : CENode} (l : CLabel) (flags : CStatementFlags) (arith : Arith e) :
      Typed (.goto l flags (some e))
  | expression {e : CENode} (arith : Arith e) : Typed (.expression e)
  | switch {e : CENode} (table : List (Nat × CLabel)) (arith : Arith e) : Typed (.switch e table)
  | inline_ (text : Text) : Typed (.inline_ text)
  | ifGoto {e : CENode} (l : CLabel) (cond : Cond e) : Typed (.ifGoto l e)
  | ifNGoto {e : CENode} (l : CLabel) (cond : Cond e) : Typed (.ifNGoto l e)
  | sectionEnd {e : CENode} (l : CLabel) (flags : CStatementFlags) (arith : Arith e) :
      Typed (.sectionEnd l flags e)

structure Sound (count : Nat) (ss : List CStatement) : Prop where
  typed : ∀ c ∈ ss, Typed c
  distinct : (labels ss).Nodup
  undefined : ∀ n, count < n → uniqueName n ∉ labels ss
  unused : ∀ n, count < n → uniqueName n ∉ targets ss

def CStatement.final (c : CStatement) : Prop :=
  (∀ l e, c ≠ .ifNGoto l e) ∧ ∀ e, c.expr = some e → e.work = 0

def CStatement.load : CStatement → Nat
  | .ifNGoto _ e => 3 * e.work + 1
  | c => 3 * (c.expr.elim 0 CENode.work)

def load (ss : List CStatement) : Nat := (ss.map CStatement.load).sum

structure Revises (pre : List CStatement) (count : Nat) (revised : Bool) (ss : List CStatement)
    (count' : Nat) (revised' : Bool) (ss' : List CStatement) : Prop where
  same : Same (pre ++ ss) (pre ++ ss')
  sound : Sound count' (pre ++ ss')
  progress : Progress revised revised' (ss' = ss) (load ss) (load ss')

section Turn

variable {pre ss ss' ss'' rest : List CStatement} {count count' count'' : Nat}
  {revised revised' revised'' : Bool} {c d : CStatement} {e e' : CENode} {l : CLabel}

theorem loadCons (c : CStatement) (ss : List CStatement) : load (c :: ss) = c.load + load ss := by
  simp [load]

theorem progressTrans {middle : Bool} {before now later : List CStatement}
    (one : Progress revised middle (now = before) (load before) (load now))
    (two : Progress middle revised' (later = now) (load now) (load later)) :
    Progress revised revised' (later = before) (load before) (load later) := by
  rcases one with ⟨rfl, rfl⟩ | ⟨rfl, less⟩
  · exact two
  · rcases two with ⟨rfl, rfl⟩ | ⟨rfl, less'⟩
    · exact .inr ⟨rfl, less⟩
    · exact .inr ⟨rfl, Nat.lt_trans less' less⟩

theorem revisesTrans (one : Revises pre count revised ss count' revised' ss')
    (two : Revises pre count' revised' ss' count'' revised'' ss'') :
    Revises pre count revised ss count'' revised'' ss'' :=
  ⟨sameTrans one.same two.same, two.sound, progressTrans one.progress two.progress⟩

theorem revisesNothing (sound : Sound count (pre ++ ss)) (revised : Bool) :
    Revises pre count revised ss count revised ss :=
  ⟨sameRefl _, sound, .inl ⟨rfl, rfl⟩⟩

theorem soundReplaced {block : List CStatement} (sound : Sound count (pre ++ c :: rest))
    (plain : c.defines = none) (typed : ∀ d ∈ block, Typed d) (more : count ≤ count')
    (new : ∀ name ∈ labels block, ∃ n, count < n ∧ n ≤ count' ∧ name = uniqueName n)
    (distinct : (labels block).Nodup)
    (aims : ∀ name ∈ targets block, name ∈ c.targets ∨ name ∈ labels block) :
    Sound count' (pre ++ block ++ rest) := by
  have labels_ : labels (pre ++ c :: rest) = labels pre ++ labels rest := by
    rw [labelsAppend, labels, labels, labels, List.filterMap_cons, plain]
  have distinct_ := sound.distinct
  have undefined := sound.undefined
  have unused := sound.unused
  rw [labels_] at distinct_ undefined
  constructor
  · intro d mem
    rcases List.mem_append.mp mem with mem | mem
    · rcases List.mem_append.mp mem with mem | mem
      · exact sound.typed d (List.mem_append_left _ mem)
      · exact typed d mem
    · exact sound.typed d (List.mem_append_right _ (List.mem_cons_of_mem _ mem))
  · rw [labelsAppend, labelsAppend, List.append_assoc]
    have perm : (labels pre ++ (labels block ++ labels rest)).Perm
        (labels block ++ (labels pre ++ labels rest)) := by
      rw [← List.append_assoc, ← List.append_assoc]
      exact List.perm_append_comm.append_right _
    rw [perm.nodup_iff, List.nodup_append']
    refine ⟨distinct, distinct_, ?_⟩
    intro name inside outside
    obtain ⟨n, lt, -, rfl⟩ := new name inside
    exact undefined n lt outside
  · intro n lt mem
    rw [labelsAppend, labelsAppend, List.mem_append, List.mem_append] at mem
    rcases mem with (mem | mem) | mem
    · exact undefined n (by omega) (List.mem_append_left _ mem)
    · obtain ⟨k, -, le, named⟩ := new _ mem
      have := uniqueNameInj named
      omega
    · exact undefined n (by omega) (List.mem_append_right _ mem)
  · intro n lt mem
    have past := unused n (by omega)
    rw [targetsAppend, targetsAppend, List.mem_append, List.mem_append] at mem
    rw [targetsAppend, targets, targets, List.flatMap_cons, List.mem_append, List.mem_append] at past
    rcases mem with (mem | mem) | mem
    · exact past (.inl mem)
    · rcases aims _ mem with mem | mem
      · exact past (.inr (.inl mem))
      · obtain ⟨k, -, le, named⟩ := new _ mem
        have := uniqueNameInj named
        omega
    · exact past (.inr (.inr mem))

variable {a b : CENode}

theorem condJoin {type : Dyadic} (joins : type.joins = true)
    (cond : Cond (.dyadic type a b)) : Cond a ∧ Cond b := by
  cases cond with
  | compare compares _ _ =>
    rw [comparesSingle compares] at joins
    cases joins
  | join _ left right => exact ⟨left, right⟩

theorem typedIfGoto (typed : Typed (.ifGoto l e)) : Cond e := by
  cases typed with
  | ifGoto _ cond => exact cond

theorem soundHead (sound : Sound count (pre ++ c :: rest)) : Typed c :=
  sound.typed c (List.mem_append_right _ List.mem_cons_self)

def andStatements (falseL : Text) (l : CLabel) (a b : CENode) : List CStatement :=
  [.ifNGoto (.named falseL) a, .ifNGoto (.named falseL) b, .goto l .initial none, .label falseL]

theorem andLabels (falseL : Text) (l : CLabel) (a b : CENode) :
    labels (andStatements falseL l a b) = [falseL] := rfl

theorem andTargets {falseL name : Text}
    (mem : name ∈ targets (andStatements falseL l a b)) : name ∈ l.names ∨ name = falseL := by
  simp only [andStatements, targets, List.flatMap_cons, List.flatMap_nil, CStatement.targets,
    CLabel.names, List.mem_append, List.mem_cons, List.not_mem_nil, or_false] at mem
  rcases mem with named | named | inside
  · exact .inr named
  · exact .inr named
  · exact .inl inside

theorem andTyped {falseL : Text} (left : Cond a) (right : Cond b) : ∀ d ∈ andStatements falseL l a b, Typed d := by
  intro d mem
  simp only [andStatements, List.mem_cons, List.not_mem_nil, or_false] at mem
  rcases mem with rfl | rfl | rfl | rfl
  · exact .ifNGoto _ left
  · exact .ifNGoto _ right
  · exact .jump _ _
  · exact .label _

theorem andCovers {falseL : Text} (new : falseL ∉ labels pre) :
    Covers (.ifGoto l (.dyadic .and a b)) pre (andStatements falseL l a b) rest := by
  intro σ m s
  have found : findLabel falseL (pre ++ andStatements falseL l a b ++ rest) = some rest := by
    rw [List.append_assoc, findLabelAppend, findLabelNone new]
    simp [andStatements, findLabel, CStatement.defines]
  generalize pre ++ andStatements falseL l a b ++ rest = whole at found ⊢
  by_cases left : holds m s a
  · by_cases right : holds m s b
    · refine ⟨2, ?_⟩
      simp [andStatements, run, machine, exec, holds, left, right, after]
    · refine ⟨1, ?_⟩
      simp [andStatements, run, machine, exec, holds, left, right, after, goTo, found]
  · refine ⟨0, ?_⟩
    simp [andStatements, run, machine, exec, holds, left, after, goTo, found]

theorem orCovers : Covers (.ifGoto l (.dyadic .or a b)) pre [.ifGoto l a, .ifGoto l b] rest := by
  intro σ m s
  generalize pre ++ [CStatement.ifGoto l a, CStatement.ifGoto l b] ++ rest = whole
  by_cases left : holds m s a
  · refine ⟨0, ?_⟩
    simp [run, machine, exec, holds, left, after]
  · refine ⟨1, ?_⟩
    simp [run, machine, exec, holds, left, after]

theorem reviseAndRevises (sound : Sound count (pre ++ ss)) (revised : Bool) :
    Revises pre count revised ss (reviseAnd count revised ss).2.1 (reviseAnd count revised ss).2.2
      (reviseAnd count revised ss).1 := by
  unfold reviseAnd
  split
  · rename_i l a b rest
    obtain ⟨left, right⟩ := condJoin rfl (typedIfGoto (soundHead sound))
    have undefined := sound.undefined _ (Nat.lt_succ_self count)
    have unused := sound.unused _ (Nat.lt_succ_self count)
    rw [labelsAppend, List.mem_append, not_or] at undefined
    have new : ∀ {name}, name ∈ labels (andStatements (uniqueName (count + 1)) l a b) →
        name = uniqueName (count + 1) := by
      intro name mem
      rw [andLabels] at mem
      exact List.mem_singleton.mp mem
    refine ⟨?_, ?_, .inr ⟨rfl, ?_⟩⟩
    · have same : Same _ (pre ++ andStatements (uniqueName (count + 1)) l a b ++ rest) :=
        replaced rfl (fun name mem => by rw [new mem]; exact unused) (andCovers undefined.1)
      rwa [List.append_assoc] at same
    · have sound' := soundReplaced sound rfl (andTyped left right) (Nat.le_succ count)
        (fun name mem => ⟨count + 1, Nat.lt_succ_self _, Nat.le_refl _, new mem⟩)
        (by rw [andLabels]; exact List.nodup_singleton _)
        (fun name mem => (andTargets mem).imp_right
          (fun named => by rw [andLabels]; exact List.mem_singleton.mpr named))
      rwa [List.append_assoc] at sound'
    · simp only [loadCons, CStatement.load, CStatement.expr, Option.elim, CENode.work,
        Dyadic.joins, Bool.toNat_true]
      omega
  · exact revisesNothing sound revised

theorem reviseOrRevises (sound : Sound count (pre ++ ss)) (revised : Bool) :
    Revises pre count revised ss count (reviseOr revised ss).2 (reviseOr revised ss).1 := by
  unfold reviseOr
  split
  · rename_i l a b rest
    obtain ⟨left, right⟩ := condJoin rfl (typedIfGoto (soundHead sound))
    have absent : ∀ name ∈ labels [CStatement.ifGoto l a, .ifGoto l b], False :=
      fun name mem => List.not_mem_nil mem
    refine ⟨?_, ?_, .inr ⟨rfl, ?_⟩⟩
    · have same : Same (pre ++ .ifGoto l (.dyadic .or a b) :: rest)
          (pre ++ [.ifGoto l a, .ifGoto l b] ++ rest) :=
        replaced rfl (fun name mem => (absent name mem).elim) orCovers
      rwa [List.append_assoc] at same
    · have sound' : Sound count (pre ++ [.ifGoto l a, .ifGoto l b] ++ rest) := by
        refine soundReplaced sound rfl ?_ (Nat.le_refl count)
          (fun name mem => (absent name mem).elim) List.nodup_nil ?_
        · intro d mem
          simp only [List.mem_cons, List.not_mem_nil, or_false] at mem
          rcases mem with rfl | rfl
          · exact .ifGoto _ left
          · exact .ifGoto _ right
        · intro name mem
          simp only [targets, List.flatMap_cons, List.flatMap_nil, List.append_nil,
            List.mem_append, CStatement.targets, or_self] at mem
          exact .inl mem
      rwa [List.append_assoc] at sound'
    · simp only [loadCons, CStatement.load, CStatement.expr, Option.elim, CENode.work,
        Dyadic.joins, Bool.toNat_true]
      omega
  · exact revisesNothing sound revised

theorem revisesOne (sound : Sound count (pre ++ c :: rest)) (plain : c.defines = none)
    (undefined : d.defines = none) (typed : Typed d) (targets_ : d.targets = c.targets)
    (exec : ∀ {σ : Type} (m : Meaning σ) (s : σ), exec m s d = exec m s c)
    (progress : Progress revised revised' (d = c) c.load d.load) :
    Revises pre count revised (c :: rest) count revised' (d :: rest) := by
  have bare : labels [d] = [] := by rw [labels, List.filterMap_cons, undefined, List.filterMap_nil]
  have absent : ∀ name ∈ labels [d], False := by
    rw [bare]
    exact fun name mem => List.not_mem_nil mem
  refine ⟨replacedOne plain undefined exec, ?_, ?_⟩
  · have sound' : Sound count (pre ++ [d] ++ rest) := by
      refine soundReplaced sound plain ?_ (Nat.le_refl count)
        (fun name mem => (absent name mem).elim) (by rw [bare]; exact List.nodup_nil) ?_
      · intro x mem
        rw [List.mem_singleton.mp mem]
        exact typed
      · intro name mem
        rw [targets, List.flatMap_cons, List.flatMap_nil, List.append_nil, targets_] at mem
        exact .inl mem
    rwa [List.append_assoc, List.singleton_append] at sound'
  · rw [loadCons, loadCons]
    rcases progress with ⟨rfl, rfl⟩ | ⟨rfl, less⟩
    · exact .inl ⟨rfl, rfl⟩
    · exact .inr ⟨rfl, Nat.add_lt_add_right less _⟩

theorem reviseIfngotoRevises (sound : Sound count (pre ++ ss)) (revised : Bool) :
    ∃ ss' revised', reviseIfngoto revised ss = .ok (ss', revised') ∧
      Revises pre count revised ss count revised' ss' := by
  by_cases negated : ∃ l e rest, ss = .ifNGoto l e :: rest
  · obtain ⟨l, e, rest, rfl⟩ := negated
    have cond : Cond e := by
      cases soundHead sound with
      | ifNGoto _ cond => exact cond
    obtain ⟨n, ok, lowered, fewer, holds_⟩ := reviseNotCond cond
    refine ⟨_, true, by rw [reviseIfngoto, ok], ?_⟩
    refine revisesOne sound rfl rfl (.ifGoto l lowered) rfl ?_ (.inr ⟨rfl, ?_⟩)
    · intro σ m s
      rw [exec, exec, holds_]
      cases holds m s e <;> rfl
    · simp only [CStatement.load, CStatement.expr, Option.elim]
      omega
  · refine ⟨ss, revised, ?_, revisesNothing sound revised⟩
    unfold reviseIfngoto
    split
    · rename_i l e rest
      exact absurd ⟨l, e, rest, rfl⟩ negated
    · rfl

theorem setExprSelf (has : c.expr = some e) : c.setExpr e = c := by
  cases c with
  | goto l flags e' =>
    cases has
    rfl
  | expression | switch | ifGoto | ifNGoto | sectionEnd =>
    cases has
    rfl
  | _ => cases has

theorem setExprTargets (e : CENode) (c : CStatement) : (c.setExpr e).targets = c.targets := by
  cases c with
  | goto l flags e' => cases e' <;> rfl
  | _ => rfl

theorem setExprPlain (has : c.expr = some e) (e' : CENode) :
    c.defines = none ∧ (c.setExpr e').defines = none := by
  cases c with
  | goto l flags e =>
    cases has
    exact ⟨rfl, rfl⟩
  | label name => cases has
  | _ => exact ⟨rfl, rfl⟩

theorem setExprLoad (has : c.expr = some e) (less : e'.work < e.work) :
    (c.setExpr e').load < c.load := by
  cases c with
  | goto l flags e | expression | switch | ifGoto | ifNGoto | sectionEnd =>
    cases has
    simp only [CStatement.setExpr, CStatement.load, CStatement.expr, Option.elim]
    omega
  | _ => cases has

theorem reviseTyped (typed : Typed c) (has : c.expr = some e) (revised : Bool) :
    ∃ e' revised', reviseStatement revised e = .ok (e', revised') ∧ Typed (c.setExpr e') ∧
      Progress revised revised' (e' = e) e.work e'.work ∧
      ∀ {σ : Type} (m : Meaning σ) (s : σ), exec m s (c.setExpr e') = exec m s c := by
  have plain : Arith e → ∃ e' revised', reviseStatement revised e = .ok (e', revised') ∧
      Arith e' ∧ Alike e e' ∧ Progress revised revised' (e' = e) e.work e'.work := by
    intro arith
    obtain ⟨e', b, ok, arith', alike, progress⟩ := reviseArith arith revised
    exact ⟨e', b, ok, arith', alike, progress.imp_left (And.imp_right And.left)⟩
  cases typed with
  | nop | empty | label | jump | inline_ => cases has
  | goto l flags arith =>
    cases has
    obtain ⟨e', b, ok, arith', alike, progress⟩ := plain arith
    refine ⟨e', b, ok, .goto l flags arith', progress, ?_⟩
    intro σ m s
    simp only [CStatement.setExpr, exec, Option.map, alike.value]
  | expression arith =>
    cases has
    obtain ⟨e', b, ok, arith', alike, progress⟩ := plain arith
    refine ⟨e', b, ok, .expression arith', progress, ?_⟩
    intro σ m s
    simp only [CStatement.setExpr, exec, alike.performed]
  | switch table arith =>
    cases has
    obtain ⟨e', b, ok, arith', alike, progress⟩ := plain arith
    refine ⟨e', b, ok, .switch table arith', progress, ?_⟩
    intro σ m s
    simp only [CStatement.setExpr, exec, alike.value]
  | sectionEnd l flags arith =>
    cases has
    obtain ⟨e', b, ok, arith', alike, progress⟩ := plain arith
    refine ⟨e', b, ok, .sectionEnd l flags arith', progress, ?_⟩
    intro σ m s
    simp only [CStatement.setExpr, exec, alike.value]
  | ifGoto l cond =>
    cases has
    obtain ⟨e', b, ok, lowers, progress⟩ := reviseCond cond revised
    refine ⟨e', b, ok, .ifGoto l lowers.cond, progress, ?_⟩
    intro σ m s
    simp only [CStatement.setExpr, exec, lowers.holds]
  | ifNGoto l cond =>
    cases has
    obtain ⟨e', b, ok, lowers, progress⟩ := reviseCond cond revised
    refine ⟨e', b, ok, .ifNGoto l lowers.cond, progress, ?_⟩
    intro σ m s
    simp only [CStatement.setExpr, exec, lowers.holds]

theorem reviseExprRevises (sound : Sound count (pre ++ ss)) (revised : Bool) :
    ∃ ss' revised', reviseExpr revised ss = .ok (ss', revised') ∧
      Revises pre count revised ss count revised' ss' := by
  cases ss with
  | nil => exact ⟨[], revised, rfl, revisesNothing sound revised⟩
  | cons c rest =>
    cases has : c.expr with
    | none =>
      refine ⟨c :: rest, revised, ?_, revisesNothing sound revised⟩
      rw [reviseExpr, has]
    | some e =>
      obtain ⟨e', revised', ok, typed, progress, same⟩ := reviseTyped (soundHead sound) has revised
      obtain ⟨plain, undefined⟩ := setExprPlain has e'
      refine ⟨c.setExpr e' :: rest, revised', ?_, ?_⟩
      · rw [reviseExpr, has]
        dsimp only
        rw [ok]
      · refine revisesOne sound plain undefined typed (setExprTargets e' c) same ?_
        rcases progress with ⟨unchanged, rfl⟩ | ⟨rfl, less⟩
        · exact .inl ⟨unchanged, setExprSelf has⟩
        · exact .inr ⟨rfl, setExprLoad has less⟩

theorem progressUnrevised {same : Prop} {before now : Nat}
    (progress : Progress revised false same before now) : revised = false ∧ same := by
  rcases progress with ⟨unchanged, same⟩ | ⟨flagged, -⟩
  · exact ⟨unchanged.symm, same⟩
  · cases flagged

theorem typedSettled (typed : Typed c) (has : c.expr = some e)
    (done : reviseStatement false e = .ok (e', false)) (notAnd : ∀ l a b, c ≠ .ifGoto l (.dyadic .and a b))
    (notOr : ∀ l a b, c ≠ .ifGoto l (.dyadic .or a b)) (notNegated : ∀ l e, c ≠ .ifNGoto l e) :
    e.work = 0 := by
  cases typed with
  | nop | empty | label | jump | inline_ => cases has
  | goto _ _ arith | expression arith | switch _ arith | sectionEnd _ _ arith =>
    cases has
    exact arithSettled arith done
  | ifNGoto l cond => exact absurd rfl (notNegated l _)
  | ifGoto l cond =>
    cases has
    rcases condSettled cond done with none_ | ⟨type, a, b, joins, rfl⟩
    · exact none_
    · cases type with
      | and => exact absurd rfl (notAnd l a b)
      | or => exact absurd rfl (notOr l a b)
      | _ => cases joins

theorem reviseHeadRevises (sound : Sound count (pre ++ ss)) (revised : Bool) :
    ∃ ss' count' revised', reviseHead count revised ss = .ok (ss', count', revised') ∧
      Revises pre count revised ss count' revised' ss' := by
  have and_ := reviseAndRevises sound revised
  have or_ := reviseOrRevises and_.sound (reviseAnd count revised ss).2.2
  obtain ⟨ss₁, revised₁, okNot, not_⟩ := reviseIfngotoRevises or_.sound
    (reviseOr (reviseAnd count revised ss).2.2 (reviseAnd count revised ss).1).2
  obtain ⟨ss₂, revised₂, okExpr, expr_⟩ := reviseExprRevises not_.sound revised₁
  refine ⟨ss₂, _, revised₂, ?_, revisesTrans and_ (revisesTrans or_ (revisesTrans not_ expr_))⟩
  unfold reviseHead
  dsimp only
  rw [okNot]
  dsimp only
  rw [okExpr]

theorem reviseHeadSettled (sound : Sound count (pre ++ c :: rest))
    (settled : reviseHead count false (c :: rest) = .ok (ss', count', false)) : c.final := by
  have and_ := reviseAndRevises sound false
  have or_ := reviseOrRevises and_.sound (reviseAnd count false (c :: rest)).2.2
  obtain ⟨ss₁, revised₁, okNot, not_⟩ := reviseIfngotoRevises or_.sound
    (reviseOr (reviseAnd count false (c :: rest)).2.2 (reviseAnd count false (c :: rest)).1).2
  obtain ⟨ss₂, revised₂, okExpr, expr_⟩ := reviseExprRevises not_.sound revised₁
  have same : revised₂ = false := by
    unfold reviseHead at settled
    dsimp only at settled
    rw [okNot] at settled
    dsimp only at settled
    rw [okExpr] at settled
    cases settled
    rfl
  subst same
  obtain ⟨rfl, -⟩ := progressUnrevised expr_.progress
  obtain ⟨noOr, sameNot⟩ := progressUnrevised not_.progress
  have orProgress := or_.progress
  rw [noOr] at orProgress
  obtain ⟨noAnd, sameOr⟩ := progressUnrevised orProgress
  have andProgress := and_.progress
  rw [noAnd] at andProgress
  obtain ⟨-, sameAnd⟩ := progressUnrevised andProgress
  rw [noOr, sameOr, sameAnd] at okNot
  rw [sameNot, sameOr, sameAnd] at okExpr
  rw [noAnd, sameAnd] at noOr
  have notNegated : ∀ l e, c ≠ .ifNGoto l e := by
    rintro l e rfl
    rw [reviseIfngoto] at okNot
    split at okNot <;> cases okNot
  refine ⟨notNegated, ?_⟩
  intro e has
  rw [reviseExpr, has] at okExpr
  dsimp only at okExpr
  split at okExpr
  · cases okExpr
  · rename_i e' revised' done
    cases okExpr
    refine typedSettled (soundHead sound) has done ?_ ?_ notNegated
    · rintro l a b rfl
      cases noAnd
    · rintro l a b rfl
      cases noOr

theorem revisesCons {t : CStatement} {more done : List CStatement}
    (tail : Revises (pre ++ [t]) count revised more count' revised' done) :
    Revises pre count revised (t :: more) count' revised' (t :: done) := by
  obtain ⟨same, sound, progress⟩ := tail
  rw [List.append_assoc, List.append_assoc] at same
  rw [List.append_assoc] at sound
  refine ⟨same, sound, ?_⟩
  rw [loadCons, loadCons]
  rcases progress with ⟨unchanged, rfl⟩ | ⟨flagged, less⟩
  · exact .inl ⟨unchanged, rfl⟩
  · exact .inr ⟨flagged, Nat.add_lt_add_left less _⟩

theorem revisePassRevises (sound : Sound count (pre ++ ss)) (revised : Bool) :
    ∃ done count' revised', revisePass count revised ss = .ok (done, count', revised') ∧
      Revises pre count revised ss count' revised' done ∧
      (revised' = false → ∀ c ∈ done, c.final) := by
  induction size : bulk ss using Nat.strongRecOn generalizing pre ss count revised with
  | _ n ih =>
    subst size
    obtain ⟨ss', count', revised', head, one⟩ := reviseHeadRevises sound revised
    rw [revisePass]
    cases ss' with
    | nil =>
      refine ⟨[], count', revised', ?_, one, fun _ c mem => absurd mem List.not_mem_nil⟩
      split <;> simp_all
    | cons t more =>
      have sound' := one.sound
      rw [← List.singleton_append, ← List.append_assoc] at sound'
      obtain ⟨done, count'', revised'', tail, two, final⟩ :=
        ih _ (reviseHeadBulk head) sound' revised' rfl
      refine ⟨t :: done, count'', revised'', ?_, revisesTrans one (revisesCons two), ?_⟩
      · split <;> simp_all
      · rintro rfl c mem
        obtain ⟨rfl, -⟩ := progressUnrevised two.progress
        obtain ⟨rfl, rfl⟩ := progressUnrevised one.progress
        rcases List.mem_cons.mp mem with rfl | mem
        · exact reviseHeadSettled sound head
        · exact final rfl c mem

theorem reviseWhileEnds {passes : Nat} (sound : Sound count ss) (enough : load ss < passes) :
    ∃ done count', reviseWhile passes count ss = some (.ok (done, count')) ∧ Same ss done ∧
      Sound count' done ∧ ∀ c ∈ done, c.final := by
  induction passes generalizing count ss with
  | zero => exact absurd enough (Nat.not_lt_zero _)
  | succ passes ih =>
    have sound' : Sound count ([] ++ ss) := sound
    obtain ⟨done, count', revised, pass, one, final⟩ := revisePassRevises sound' false
    rw [reviseWhile, pass]
    cases revised with
    | false => exact ⟨done, count', rfl, one.same, one.sound, final rfl⟩
    | true =>
      have less : load done < load ss := by
        rcases one.progress with ⟨flagged, -⟩ | ⟨-, less⟩
        · cases flagged
        · exact less
      obtain ⟨last, count'', rest, same, sound'', final⟩ :=
        ih one.sound (Nat.lt_of_lt_of_le less (Nat.le_of_lt_succ enough))
      exact ⟨last, count'', rest, sameTrans one.same same, sound'', final⟩

end Turn

def CENode.plain : CENode → Prop
  | .objRef _ => True
  | .intConst _ => True
  | .dyadic type l r => type ≠ .and ∧ type ≠ .or ∧ l.plain ∧ r.plain
  | .monadic _ _ => False

def CStatement.lowered (c : CStatement) : Prop :=
  (∀ l e, c ≠ .ifNGoto l e) ∧ ∀ e, c.expr = some e → e.plain

theorem plainOfWork {e : CENode} (none_ : e.work = 0) : e.plain := by
  induction e with
  | objRef o => trivial
  | intConst v => trivial
  | dyadic type l r ihL ihR =>
    rw [CENode.work] at none_
    have single : type.joins = false := by
      cases joins : type.joins with
      | false => rfl
      | true =>
        rw [joins] at none_
        cases none_
    refine ⟨?_, ?_, ihL (by omega), ihR (by omega)⟩
    · rintro rfl
      cases single
    · rintro rfl
      cases single
  | monadic type e ih => cases none_

theorem loweringKept {count : Nat} {ss : List CStatement} (typed : ∀ c ∈ ss, Typed c)
    (distinct : (labels ss).Nodup)
    (issued : ∀ n, count < n → uniqueName n ∉ labels ss ∧ uniqueName n ∉ targets ss) :
    ∃ passes ss' count', reviseWhile passes count ss = some (.ok (ss', count')) ∧
      (∀ c ∈ ss', c.lowered) ∧ (labels ss').Nodup ∧
      ∀ (σ : Type) (m : Meaning σ) (s : σ) (es : List Event), Does m ss' s es ↔ Does m ss s es := by
  have sound : Sound count ss :=
    ⟨typed, distinct, fun n lt => (issued n lt).1, fun n lt => (issued n lt).2⟩
  obtain ⟨ss', count', done, same, sound', final⟩ := reviseWhileEnds sound (Nat.lt_succ_self _)
  refine ⟨_, ss', count', done, ?_, sound'.distinct, fun σ m s es => (same σ m s es).symm⟩
  intro c mem
  obtain ⟨notNegated, none_⟩ := final c mem
  exact ⟨notNegated, fun e has => plainOfWork (none_ e has)⟩

def negatedExample : List CStatement :=
  let a : CENode := .objRef ⟨.wo, 0, 1⟩
  let b : CENode := .objRef ⟨.fw, 8, 15⟩
  [.ifNGoto (.named (uniqueName 1)) (.monadic .not (.dyadic .and (.dyadic .less a b)
      (.dyadic .equ a (.monadic .bitNot b)))),
    .expression (.dyadic .ass a b), .label (uniqueName 1)]

theorem loweringKeptNegated :
    ∃ passes ss' count', reviseWhile passes 1 negatedExample = some (.ok (ss', count')) ∧
      (∀ c ∈ ss', c.lowered) ∧ (labels ss').Nodup ∧
      ∀ (σ : Type) (m : Meaning σ) (s : σ) (es : List Event),
        Does m ss' s es ↔ Does m negatedExample s es := by
  refine loweringKept ?_ (List.nodup_singleton _) ?_
  · intro c mem
    simp only [negatedExample, List.mem_cons, List.not_mem_nil, or_false] at mem
    rcases mem with rfl | rfl | rfl
    · exact .ifNGoto _ (.not (.join rfl (.compare rfl (.objRef _) (.objRef _))
        (.compare rfl (.objRef _) (.bitNot (.objRef _)))))
    · exact .expression (.dyadic rfl rfl (.objRef _) (.objRef _))
    · exact .label _
  · intro n lt
    have apart : uniqueName n ≠ uniqueName 1 := fun same => by
      have := uniqueNameInj same
      omega
    exact ⟨fun mem => apart (List.mem_singleton.mp mem), fun mem => apart (List.mem_singleton.mp mem)⟩

end Flexbuild.SoftIr
