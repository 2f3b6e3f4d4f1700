import Mathlib.Data.List.Basic

/-! Streams of frames. A frame is a head and the items that follow it, and the head tells how
many there are. A walk that reads only heads passes the starts of the frames, and ends where the
last of them ends, exactly when every head tells the length of its own frame. -/
namespace Flexbuild.SelfDelimiting

variable {α : Type} {follow : α → Nat} {stream : Nat → α} {pos : Nat} {sizes : List Nat}

def walk (follow : α → Nat) (stream : Nat → α) (stop : Nat) : Nat → Nat → List Nat
  | 0, pos => [pos]
  | fuel + 1, pos => if pos < stop then pos :: walk follow stream stop fuel (pos + 1 + follow (stream pos)) else [pos]

def starts (pos : Nat) : List Nat → List Nat
  | [] => []
  | size :: rest => pos :: starts (pos + 1 + size) rest

def finish (pos : Nat) : List Nat → Nat
  | [] => pos
  | size :: rest => finish (pos + 1 + size) rest

def Framed (follow : α → Nat) (stream : Nat → α) (pos : Nat) : List Nat → Prop
  | [] => True
  | size :: rest => follow (stream pos) = size ∧ Framed follow stream (pos + 1 + size) rest

theorem finishAbove (sizes : List Nat) (pos : Nat) : pos + sizes.length ≤ finish pos sizes := by
  induction sizes generalizing pos with
  | nil => exact Nat.le_refl pos
  | cons size rest above =>
    have later := above (pos + 1 + size)
    rw [finish, List.length_cons]
    omega

theorem walkHead (stop fuel pos : Nat) : (walk follow stream stop fuel pos).head? = some pos := by
  cases fuel with
  | zero => rfl
  | succ fuel =>
    rw [walk]
    split <;> rfl

theorem startsHead (sizes : List Nat) (pos : Nat) : (starts pos sizes ++ [finish pos sizes]).head? = some pos := by
  cases sizes <;> rfl

theorem walkStarts (enough : finish pos sizes ≤ pos + fuel) :
    walk follow stream (finish pos sizes) fuel pos = starts pos sizes ++ [finish pos sizes] ↔
      Framed follow stream pos sizes := by
  induction sizes generalizing pos fuel with
  | nil => cases fuel <;> simp [walk, starts, finish, Framed]
  | cons size rest same =>
    have above := finishAbove rest (pos + 1 + size)
    rw [finish] at enough ⊢
    cases fuel with
    | zero => omega
    | succ fuel =>
      rw [walk, if_pos (by omega), starts, List.cons_append, List.cons_inj_right, Framed]
      constructor
      · intro walked
        have next : pos + 1 + follow (stream pos) = pos + 1 + size := by
          have heads := congrArg List.head? walked
          rw [walkHead, startsHead] at heads
          exact Option.some.inj heads
        have told : follow (stream pos) = size := by omega
        rw [told] at walked
        exact ⟨told, (same (by omega)).1 walked⟩
      · rintro ⟨told, framed⟩
        rw [told]
        exact (same (by omega)).2 framed

end Flexbuild.SelfDelimiting
