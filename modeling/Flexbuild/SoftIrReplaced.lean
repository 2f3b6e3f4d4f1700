import Mathlib.Data.List.Basic
import Flexbuild.SoftIr

/-! One statement of a list replaced by a few others that do the same: the list does what it did,
as long as the labels that come with them are new. -/
namespace Flexbuild.SoftIr
open Numerals Traces

def Same (before now : List CStatement) : Prop :=
  ∀ (σ : Type) (m : Meaning σ) (s : σ) (es : List Event), Does m before s es ↔ Does m now s es

theorem sameRefl (ss : List CStatement) : Same ss ss := fun _ _ _ _ => Iff.rfl

theorem sameTrans {first second third : List CStatement} (one : Same first second)
    (two : Same second third) : Same first third :=
  fun σ m s es => (one σ m s es).trans (two σ m s es)

variable {σ : Type} {pre block post : List CStatement} {c d : CStatement} {l : CLabel}

theorem targetsMem {name : Text} {ss : List CStatement} :
    name ∈ targets ss ↔ ∃ d ∈ ss, name ∈ d.targets := List.mem_flatMap

theorem execTargets {m : Meaning σ} {s : σ} {flags : CStatementFlags} {v : Option Word}
    (jump : (exec m s d).2 = .jump l flags v) : ∀ name ∈ l.names, name ∈ d.targets := by
  cases d with
  | nop | empty | label name | expression e | inline_ text => cases jump
  | goto label flags e =>
    cases jump
    exact fun _ mem => mem
  | switch e table =>
    rw [exec] at jump
    split at jump
    · rename_i entry found
      cases jump
      exact fun name mem => List.mem_flatMap.mpr ⟨entry, List.mem_of_find?_eq_some found, mem⟩
    · cases jump
  | ifGoto label e =>
    rw [exec] at jump
    split at jump
    · cases jump
      exact fun _ mem => mem
    · cases jump
  | ifNGoto label e =>
    rw [exec] at jump
    split at jump
    · cases jump
    · cases jump
      exact fun _ mem => mem
  | sectionEnd label flags e =>
    rw [exec] at jump
    split at jump
    · cases jump
    · cases jump

inductive Pairs (c : CStatement) (pre block post : List CStatement) : Config σ → Config σ → Prop
  | ahead {x : List CStatement} (s : σ) (within : x <:+ pre) :
      Pairs c pre block post (.at_ (x ++ c :: post) s) (.at_ (x ++ block ++ post) s)
  | behind {x : List CStatement} (s : σ) (within : x <:+ post) :
      Pairs c pre block post (.at_ x s) (.at_ x s)
  | leaving (e : Event) : Pairs c pre block post (.leaving e) (.leaving e)
  | halted : Pairs c pre block post .halted .halted

theorem goToPairs (plain : c.defines = none) (fresh : ∀ name ∈ l.names, name ∉ labels block) (s : σ)
    (flags : CStatementFlags) (v : Option Word) :
    Pairs c pre block post (goTo (pre ++ c :: post) s flags v l)
      (goTo (pre ++ block ++ post) s flags v l) := by
  cases l with
  | proto p => exact .leaving _
  | named name =>
    have new := findLabelNone (fresh name List.mem_cons_self)
    have skip : findLabel name (c :: post) = findLabel name post := by
      rw [findLabel, plain, if_neg (Option.some_ne_none _).symm]
    rw [goTo, goTo, List.append_assoc, findLabelAppend, findLabelAppend, findLabelAppend, skip, new]
    cases inside : findLabel name pre with
    | some rest =>
      have pairs := @Pairs.ahead σ c pre block post rest s (findLabelSuffix inside)
      rw [List.append_assoc] at pairs
      exact pairs
    | none =>
      cases later : findLabel name post with
      | some rest => exact .behind s (findLabelSuffix later)
      | none => exact .leaving _

theorem afterPairs {m : Meaning σ} {s : σ} {rest rest' : List CStatement} (plain : c.defines = none)
    (fresh : ∀ name ∈ d.targets, name ∉ labels block)
    (falls : ∀ t : σ, Pairs c pre block post (.at_ rest t) (.at_ rest' t)) :
    Pairs c pre block post (after (pre ++ c :: post) rest s (exec m s d).2)
      (after (pre ++ block ++ post) rest' s (exec m s d).2) := by
  cases next : (exec m s d).2 with
  | fall t => exact falls t
  | jump l flags v =>
    exact goToPairs plain (fun name mem => fresh name (execTargets next name mem)) s flags v
  | halt => exact .halted

def Covers (c : CStatement) (pre block post : List CStatement) : Prop :=
  ∀ {σ : Type} (m : Meaning σ) (s : σ), ∃ k,
    run (machine m (pre ++ block ++ post)) (k + 1) (.at_ (block ++ post) s) =
      ((exec m s c).1.toList, after (pre ++ block ++ post) post s (exec m s c).2)

theorem pairsFollow (m : Meaning σ) (plain : c.defines = none)
    (fresh : ∀ name ∈ labels block, name ∉ targets (pre ++ c :: post))
    (covers : Covers c pre block post) :
    Follows (machine m (pre ++ c :: post)) (machine m (pre ++ block ++ post))
      (Pairs c pre block post) := by
  have apart : ∀ {d}, d ∈ pre ++ c :: post → ∀ name ∈ d.targets, name ∉ labels block :=
    fun mem name target new => fresh name new (targetsMem.mpr ⟨_, mem, target⟩)
  constructor
  · intro a b pairs stopped
    cases pairs with
    | @ahead x s within => cases x <;> cases stopped
    | @behind x s within => cases x <;> cases stopped
    | leaving e => cases stopped
    | halted => rfl
  · intro a b e a' pairs step
    cases pairs with
    | @ahead x s within =>
      cases x with
      | nil =>
        cases step
        obtain ⟨k, steps⟩ := covers m s
        exact ⟨k, _, steps, afterPairs plain (apart (List.mem_append_right _ List.mem_cons_self))
          (fun t => .behind t List.suffix_rfl)⟩
      | cons d x =>
        cases step
        refine ⟨0, _, runOne rfl, afterPairs plain (apart ?_) (fun t => ?_)⟩
        · exact List.mem_append_left _ (within.subset List.mem_cons_self)
        · exact .ahead t ((List.suffix_cons d x).trans within)
    | @behind x s within =>
      cases x with
      | nil =>
        cases step
        exact ⟨0, _, runOne rfl, .leaving _⟩
      | cons d x =>
        cases step
        refine ⟨0, _, runOne rfl, afterPairs plain (apart ?_) (fun t => ?_)⟩
        · exact List.mem_append_right _ (List.mem_cons_of_mem _ (within.subset List.mem_cons_self))
        · exact .behind t ((List.suffix_cons d x).trans within)
    | leaving e =>
      cases step
      exact ⟨0, _, runOne rfl, .halted⟩
    | halted => cases step

theorem replaced (plain : c.defines = none)
    (fresh : ∀ name ∈ labels block, name ∉ targets (pre ++ c :: post))
    (covers : Covers c pre block post) : Same (pre ++ c :: post) (pre ++ block ++ post) :=
  fun _ m s es => performsIff (pairsFollow m plain fresh covers) (.ahead s List.suffix_rfl) es

theorem replacedOne (plain : c.defines = none) (undefined : d.defines = none)
    (exec : ∀ {σ : Type} (m : Meaning σ) (s : σ), exec m s d = exec m s c) :
    Same (pre ++ c :: post) (pre ++ d :: post) := by
  have none_ : labels [d] = [] := by rw [labels, List.filterMap_cons, undefined, List.filterMap_nil]
  have same : Same (pre ++ c :: post) (pre ++ [d] ++ post) := by
    refine replaced plain (by rw [none_]; exact fun _ mem => absurd mem List.not_mem_nil) ?_
    intro σ m s
    refine ⟨0, runOne ?_⟩
    rw [List.singleton_append, machine, exec]
  rwa [List.append_assoc, List.singleton_append] at same

end Flexbuild.SoftIr
