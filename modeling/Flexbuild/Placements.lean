import Mathlib.Data.List.Basic
import Mathlib.Logic.Function.Basic

/-! Lists kept in numbered slots of a memory: the elements stand at consecutive positions
from a start on, and a map takes a position to its slot. -/
namespace Flexbuild.Placements

variable {α β : Type} {P Q : α → β → Prop} {mem mem' : Nat → α} {slot slot' : Nat → Nat}
  {start : Nat} {xs ys : List β} {x : β}

def Placed (P : α → β → Prop) (mem : Nat → α) (slot : Nat → Nat) : Nat → List β → Prop
  | _, [] => True
  | start, x :: xs => P (mem (slot start)) x ∧ Placed P mem slot (start + 1) xs

def slots (slot : Nat → Nat) (start n : Nat) : List Nat := (List.range' start n).map slot

theorem placedAppend : Placed P mem slot start (xs ++ ys) ↔
    Placed P mem slot start xs ∧ Placed P mem slot (start + xs.length) ys := by
  induction xs generalizing start with
  | nil => simp [Placed]
  | cons x xs ih =>
    have shift : start + 1 + xs.length = start + (xs.length + 1) := by omega
    simp only [List.cons_append, Placed, ih, List.length_cons, shift, and_assoc]

theorem placedConcat : Placed P mem slot start (xs ++ [x]) ↔
    Placed P mem slot start xs ∧ P (mem (slot (start + xs.length))) x := by
  rw [placedAppend]
  simp [Placed]

theorem placedMono (imp : ∀ a x, P a x → Q a x) (placed : Placed P mem slot start xs) :
    Placed Q mem slot start xs := by
  induction xs generalizing start with
  | nil => trivial
  | cons x xs ih => exact ⟨imp _ _ placed.1, ih placed.2⟩

theorem placedKeep (keep : ∀ i x, start ≤ i → i < start + xs.length →
      P (mem (slot i)) x → P (mem' (slot i)) x)
    (placed : Placed P mem slot start xs) : Placed P mem' slot start xs := by
  induction xs generalizing start with
  | nil => trivial
  | cons x xs ih =>
    simp only [List.length_cons] at keep
    refine ⟨keep start x (Nat.le_refl _) (by omega) placed.1, ih ?_ placed.2⟩
    intro i y low high
    exact keep i y (by omega) (by omega)

theorem placedShift (shift : ∀ i, slot' i = slot (i + 1)) (placed : Placed P mem slot (start + 1) xs) :
    Placed P mem slot' start xs := by
  induction xs generalizing start with
  | nil => trivial
  | cons x xs ih =>
    refine ⟨?_, ih placed.2⟩
    rw [shift]
    exact placed.1

theorem slotsCons (n : Nat) : slots slot start (n + 1) = slot start :: slots slot (start + 1) n := rfl

theorem slotsConcat (n : Nat) : slots slot start (n + 1) = slots slot start n ++ [slot (start + n)] := by
  unfold slots
  rw [List.range'_concat, List.map_append, Nat.one_mul]
  rfl

theorem placedGet {i : Nat} (placed : Placed P mem slot start xs) (at_ : xs[i]? = some x) :
    P (mem (slot (start + i))) x := by
  induction xs generalizing start i with
  | nil => cases at_
  | cons y xs ih =>
    cases i with
    | zero =>
      cases at_
      exact placed.1
    | succ i =>
      have later := ih placed.2 at_
      rwa [Nat.add_right_comm] at later

theorem placedMap {γ : Type} {f : α → γ} {g : β → γ} (agree : ∀ a x, P a x → f a = g x)
    (placed : Placed P mem slot start xs) :
    (slots slot start xs.length).map (fun i => f (mem i)) = xs.map g := by
  induction xs generalizing start with
  | nil => rfl
  | cons x xs ih =>
    rw [List.length_cons, slotsCons, List.map_cons, List.map_cons, agree _ _ placed.1, ih placed.2]

theorem slotsShift (shift : ∀ i, slot' i = slot (i + 1)) (n : Nat) :
    slots slot' start n = slots slot (start + 1) n := by
  induction n generalizing start with
  | zero => rfl
  | succ n ih => rw [slotsCons, slotsCons, shift, ih]

end Flexbuild.Placements
