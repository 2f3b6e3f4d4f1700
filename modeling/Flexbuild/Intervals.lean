import Mathlib.Data.List.Pairwise
import Mathlib.Data.List.Basic
import Mathlib.Algebra.BigOperators.Group.List.Basic
import Mathlib.Tactic.Linarith

/-! Finite sets of numbers as lists of half-open intervals. A separated list is sorted, has no
empty interval and no two that touch, so it is the shortest list of its set. -/
namespace Flexbuild.Intervals

structure Extent where
  base : Nat
  endAddr : Nat
  deriving DecidableEq, Repr

namespace Extent

def Proper (a : Extent) : Prop := a.base < a.endAddr

def Has (a : Extent) (x : Nat) : Prop := a.base ≤ x ∧ x < a.endAddr

instance (a : Extent) (x : Nat) : Decidable (a.Has x) := inferInstanceAs (Decidable (_ ∧ _))

def length (a : Extent) : Nat := a.endAddr - a.base

end Extent

def Separated (xs : List Extent) : Prop :=
  (∀ a ∈ xs, a.Proper) ∧ xs.Pairwise (fun a b => a.endAddr < b.base)

def hits (xs : List Extent) (x : Nat) : Nat := xs.countP (fun a => a.Has x)

def total (xs : List Extent) : Nat := (xs.map Extent.length).sum

theorem hitsNil (x : Nat) : hits [] x = 0 := rfl

theorem hitsCons (a : Extent) (xs : List Extent) (x : Nat) :
    hits (a :: xs) x = hits xs x + if a.base ≤ x ∧ x < a.endAddr then 1 else 0 := by
  rw [hits, List.countP_cons, hits]
  congr 1
  by_cases has : a.Has x
  · rw [if_pos (decide_eq_true has)]
    exact (if_pos has).symm
  · rw [if_neg (by simpa using has)]
    exact (if_neg has).symm

theorem hitsAppend (xs ys : List Extent) (x : Nat) : hits (xs ++ ys) x = hits xs x + hits ys x :=
  List.countP_append

variable {xs ys : List Extent}

theorem hitsPerm (perm : xs.Perm ys) (x : Nat) : hits xs x = hits ys x :=
  perm.countP_eq _

variable {xs : List Extent} {a : Extent}

theorem hitsPos {x : Nat} (mem : a ∈ xs) (has : a.Has x) : 0 < hits xs x :=
  List.countP_pos_iff.mpr ⟨a, mem, by simpa using has⟩

theorem totalNil : total [] = 0 := rfl

theorem totalCons (a : Extent) (xs : List Extent) : total (a :: xs) = a.length + total xs := by
  simp [total]

theorem totalAppend (xs ys : List Extent) : total (xs ++ ys) = total xs + total ys := by
  simp [total]

def Apart (a b : Extent) : Prop := a.endAddr ≤ b.base ∨ b.endAddr ≤ a.base

instance (a b : Extent) : Decidable (Apart a b) := inferInstanceAs (Decidable (_ ∨ _))

theorem apartOfHits {a b : Extent} (once : ∀ x, hits (xs ++ ys) x ≤ 1)
    (left : a ∈ xs) (right : b ∈ ys) (properA : a.Proper) (properB : b.Proper) : Apart a b := by
  by_contra meet
  simp only [Apart, not_or, not_le] at meet
  obtain ⟨low, high⟩ := meet
  unfold Extent.Proper at properA properB
  have hasA : a.Has (max a.base b.base) := ⟨le_max_left _ _, max_lt properA low⟩
  have hasB : b.Has (max a.base b.base) := ⟨le_max_right _ _, max_lt high properB⟩
  have both := once (max a.base b.base)
  have one := hitsPos left hasA
  have two := hitsPos right hasB
  rw [hitsAppend] at both
  omega

theorem pairwiseApart (once : ∀ x, hits xs x ≤ 1) (proper : ∀ a ∈ xs, a.Proper) : xs.Pairwise Apart := by
  induction xs with
  | nil => exact .nil
  | cons a rest ih =>
    refine List.pairwise_cons.mpr ⟨?_, ih ?_ (fun b mem => proper b (List.mem_cons_of_mem _ mem))⟩
    · intro b mem
      have here : a ∈ [a] := List.mem_cons_self
      exact apartOfHits once here mem (proper a List.mem_cons_self) (proper b (List.mem_cons_of_mem _ mem))
    · intro x
      exact (Nat.le_add_left _ _).trans ((hitsAppend [a] rest x).symm.trans_le (once x))

theorem separatedAppend :
    Separated (xs ++ ys) ↔ Separated xs ∧ Separated ys ∧ ∀ a ∈ xs, ∀ b ∈ ys, a.endAddr < b.base := by
  simp only [Separated, List.pairwise_append, List.forall_mem_append]
  tauto

theorem separatedCons : Separated (a :: xs) ↔ a.Proper ∧ (∀ b ∈ xs, a.endAddr < b.base) ∧ Separated xs := by
  simp only [Separated, List.pairwise_cons, List.forall_mem_cons]
  tauto

theorem separatedTotal {low high : Nat} (sep : Separated xs)
    (inside : ∀ a ∈ xs, low ≤ a.base ∧ a.endAddr ≤ high) : total xs ≤ high - low := by
  induction xs generalizing low with
  | nil => simp [totalNil]
  | cons a rest ih =>
    obtain ⟨proper, after, sepRest⟩ := separatedCons.mp sep
    obtain ⟨start, stop⟩ := inside a List.mem_cons_self
    have within : ∀ b ∈ rest, a.endAddr ≤ b.base ∧ b.endAddr ≤ high :=
      fun b mem => ⟨(after b mem).le, (inside b (List.mem_cons_of_mem _ mem)).2⟩
    have tail := ih sepRest within
    unfold Extent.Proper at proper
    rw [totalCons, Extent.length]
    omega

theorem separatedSorted (sep : Separated xs) : xs.Pairwise (fun a b => a.base < b.base) :=
  sep.2.imp_of_mem (fun left _ before => (sep.1 _ left).trans before)

theorem separatedNoTouch (sep : Separated xs) : ∀ a ∈ xs, ∀ b ∈ xs, a.endAddr ≠ b.base := by
  induction xs with
  | nil => simp
  | cons c rest ih =>
    obtain ⟨proper, after, sepRest⟩ := separatedCons.mp sep
    unfold Extent.Proper at proper
    intro a memA b memB
    rcases List.mem_cons.mp memA with rfl | later
    · rcases List.mem_cons.mp memB with rfl | far
      · exact proper.ne'
      · exact (after b far).ne
    · rcases List.mem_cons.mp memB with rfl | far
      · have before := after a later
        have inner := sepRest.1 a later
        unfold Extent.Proper at inner
        omega
      · exact ih sepRest a later b far

def pieces (hold a : Extent) : List Extent :=
  (if a.base < hold.base then [⟨a.base, hold.base⟩] else []) ++
    (if hold.endAddr < a.endAddr then [⟨hold.endAddr, a.endAddr⟩] else [])

structure Within (hold a : Extent) : Prop where
  low : a.base ≤ hold.base
  proper : hold.Proper
  high : hold.endAddr ≤ a.endAddr

section remove
variable {hold a : Extent} (within : Within hold a)
include within

theorem piecesInside {p : Extent} (mem : p ∈ pieces hold a) :
    p.Proper ∧ a.base ≤ p.base ∧ p.endAddr ≤ a.endAddr := by
  obtain ⟨low, proper, high⟩ := within
  unfold Extent.Proper at proper ⊢
  simp only [pieces, List.mem_append, List.mem_ite_nil_right, List.mem_singleton] at mem
  obtain ⟨lt, rfl⟩ | ⟨lt, rfl⟩ := mem
  · exact ⟨lt, le_rfl, by simp only; omega⟩
  · exact ⟨lt, by simp only; omega, le_rfl⟩

theorem piecesSeparated : Separated (pieces hold a) := by
  have proper := within.proper
  unfold Extent.Proper at proper
  refine ⟨fun p mem => (piecesInside within mem).1, ?_⟩
  unfold pieces
  split_ifs <;> simp [proper]

theorem piecesHits (x : Nat) : hits (pieces hold a) x + hits [hold] x = hits [a] x := by
  obtain ⟨low, proper, high⟩ := within
  unfold Extent.Proper at proper
  unfold pieces
  split_ifs <;> simp only [List.nil_append, List.cons_append, hitsCons, hitsNil] <;>
    split_ifs <;> omega

theorem piecesTotal : total (pieces hold a) + hold.length = a.length := by
  obtain ⟨low, proper, high⟩ := within
  unfold Extent.Proper at proper
  unfold pieces
  split_ifs <;> simp only [List.nil_append, List.cons_append, totalCons, totalNil, Extent.length] <;> omega

theorem removeSeparated {pre post : List Extent} (sep : Separated (pre ++ a :: post)) :
    Separated (pre ++ (pieces hold a ++ post)) := by
  obtain ⟨left, middle, before⟩ := separatedAppend.mp sep
  obtain ⟨_, after, right⟩ := separatedCons.mp middle
  refine separatedAppend.mpr ⟨left, separatedAppend.mpr ⟨piecesSeparated within, right, ?_⟩, ?_⟩
  · intro p mem b later
    have inside := piecesInside within mem
    have far := after b later
    omega
  · intro f earlier p mem
    rcases List.mem_append.mp mem with mem | later
    · have inside := piecesInside within mem
      have near := before f earlier a List.mem_cons_self
      omega
    · exact before f earlier p (List.mem_cons_of_mem _ later)

end remove

inductive Touch (p : Extent) : List Extent → Extent → Prop where
  | alone : Touch p [] p
  | left (b : Nat) : Touch p [⟨b, p.base⟩] ⟨b, p.endAddr⟩
  | right (e : Nat) : Touch p [⟨p.endAddr, e⟩] ⟨p.base, e⟩
  | both (b e : Nat) : Touch p [⟨b, p.base⟩, ⟨p.endAddr, e⟩] ⟨b, e⟩

structure Join (p : Extent) (pre touched post : List Extent) (joined : Extent) : Prop where
  before : ∀ a ∈ pre, a.endAddr < p.base
  touch : Touch p touched joined
  after : ∀ a ∈ post, p.endAddr < a.base

theorem joinExists {p : Extent} (sep : Separated xs) (apart : ∀ a ∈ xs, Apart a p) :
    ∃ pre touched post joined, xs = pre ++ (touched ++ post) ∧ Join p pre touched post joined := by
  induction xs with
  | nil => exact ⟨[], [], [], p, rfl, by simp, .alone, by simp⟩
  | cons a rest ih =>
    obtain ⟨properA, after, sepRest⟩ := separatedCons.mp sep
    unfold Extent.Proper at properA
    have here := apart a List.mem_cons_self
    unfold Apart at here
    rcases Nat.lt_or_ge a.endAddr p.base with before | reach
    · obtain ⟨pre, touched, post, joined, rfl, low, touch, high⟩ :=
        ih sepRest (fun b mem => apart b (List.mem_cons_of_mem _ mem))
      exact ⟨a :: pre, touched, post, joined, rfl, List.forall_mem_cons.mpr ⟨before, low⟩, touch, high⟩
    rcases Nat.lt_or_ge p.endAddr a.base with clear | near
    · refine ⟨[], [], a :: rest, p, rfl, by simp, .alone, List.forall_mem_cons.mpr ⟨clear, ?_⟩⟩
      intro b mem
      have far := after b mem
      omega
    rcases here with onLeft | onRight
    · -- `a` ends where the new interval starts; the next one may start where it ends
      obtain ⟨b, e⟩ := a
      obtain rfl : e = p.base := by simp only at reach onLeft; omega
      cases rest with
      | nil => exact ⟨[], [_], [], _, rfl, by simp, .left b, by simp⟩
      | cons c rest =>
        obtain ⟨properC, afterC, _⟩ := separatedCons.mp sepRest
        have next := after c List.mem_cons_self
        have farC := apart c (by simp)
        unfold Extent.Proper at properC
        unfold Apart at farC
        simp only at next
        rcases Nat.lt_or_ge p.endAddr c.base with clear | touches
        · refine ⟨[], [_], c :: rest, _, rfl, by simp, .left b, List.forall_mem_cons.mpr ⟨clear, ?_⟩⟩
          intro d mem
          have := afterC d mem
          omega
        · obtain ⟨cb, ce⟩ := c
          obtain rfl : cb = p.endAddr := by simp only at touches farC next properC; omega
          refine ⟨[], [_, _], rest, _, rfl, by simp, .both b ce, ?_⟩
          intro d mem
          have := afterC d mem
          simp only at this properC
          omega
    · obtain ⟨b, e⟩ := a
      obtain rfl : b = p.endAddr := by simp only at near onRight; omega
      refine ⟨[], [_], rest, _, rfl, by simp, .right e, ?_⟩
      intro d mem
      have := after d mem
      simp only at this properA
      omega

section join
variable {p joined : Extent} {pre touched post : List Extent} (join : Join p pre touched post joined)
  (proper : p.Proper) (sep : Separated (pre ++ (touched ++ post)))
include join proper sep

theorem joinSeparated : Separated (pre ++ joined :: post) := by
  obtain ⟨left, middle, before⟩ := separatedAppend.mp sep
  obtain ⟨inner, right, after⟩ := separatedAppend.mp middle
  obtain ⟨low, touch, high⟩ := join
  unfold Extent.Proper at proper
  refine separatedAppend.mpr ⟨left, separatedCons.mpr ⟨?_, ?_, right⟩, ?_⟩
  · cases touch
    · exact proper
    all_goals
      have propers := inner.1
      simp only [List.forall_mem_cons, Extent.Proper] at propers
      simp only [Extent.Proper]
      omega
  · intro b mem
    have far := high b mem
    cases touch
    · exact far
    · exact far
    · exact after ⟨p.endAddr, _⟩ (by simp) b mem
    · exact after ⟨p.endAddr, _⟩ (by simp) b mem
  · intro a mem b later
    rcases List.mem_cons.mp later with rfl | later
    · have near := low a mem
      cases touch
      · exact near
      · exact before a mem ⟨_, p.base⟩ (by simp)
      · exact near
      · exact before a mem ⟨_, p.base⟩ (by simp)
    · exact before a mem b (List.mem_append_right _ later)

theorem joinHits (x : Nat) : hits (pre ++ joined :: post) x = hits (pre ++ (touched ++ post)) x + hits [p] x := by
  have inner := (separatedAppend.mp (separatedAppend.mp sep).2.1).1
  obtain ⟨_, touch, _⟩ := join
  have propers := inner.1
  unfold Extent.Proper at proper
  cases touch <;> simp only [List.forall_mem_cons, Extent.Proper] at propers <;>
    simp only [hitsAppend, hitsCons, hitsNil, List.nil_append, List.cons_append] <;>
    split_ifs <;> omega

theorem joinTotal : total (pre ++ joined :: post) = total (pre ++ (touched ++ post)) + p.length := by
  have inner := (separatedAppend.mp (separatedAppend.mp sep).2.1).1
  obtain ⟨_, touch, _⟩ := join
  have propers := inner.1
  unfold Extent.Proper at proper
  cases touch <;> simp only [List.forall_mem_cons, Extent.Proper] at propers <;>
    simp only [totalAppend, totalCons, List.nil_append, List.cons_append, Extent.length] <;> omega

end join

end Flexbuild.Intervals
