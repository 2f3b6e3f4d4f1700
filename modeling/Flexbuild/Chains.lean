import Mathlib.Logic.Function.Basic
import Mathlib.Data.List.Basic
import Mathlib.Data.List.Nodup

/-! Singly linked lists in a flat memory. A cell has a payload and the address of
the next cell, address zero ends a list. `Seg` is the list segment between two
addresses; the lemmas say what reading, relinking and writing elsewhere do to it. -/
namespace Flexbuild.Chains

structure Layout (β α : Type*) where
  payload : β → α
  next : β → Nat
  setNext : β → Nat → β
  payloadSetNext : ∀ b x, payload (setNext b x) = payload b
  nextSetNext : ∀ b x, next (setNext b x) = x

structure Node (α : Type*) where
  addr : Nat
  value : α
  deriving DecidableEq, Repr

def addrs {α : Type*} (xs : List (Node α)) : List Nat := xs.map Node.addr

def lastAddr {α : Type*} : List (Node α) → Nat
  | [] => 0
  | [x] => x.addr
  | _ :: y :: rest => lastAddr (y :: rest)

variable {β α : Type*} (layout : Layout β α)

def Seg (m : Nat → β) : Nat → List (Node α) → Nat → Prop
  | a, [], t => a = t
  | a, x :: xs, t => a = x.addr ∧ x.addr ≠ 0 ∧ layout.payload (m x.addr) = x.value ∧
      Seg m (layout.next (m x.addr)) xs t

def walk (m : Nat → β) : Nat → Nat → List (Node α)
  | 0, _ => []
  | fuel + 1, a => if a = 0 then [] else ⟨a, layout.payload (m a)⟩ :: walk m fuel (layout.next (m a))

def relink (m : Nat → β) (head prev x : Nat) : (Nat → β) × Nat :=
  if prev = 0 then (m, x) else (Function.update m prev (layout.setNext (m prev) x), head)

variable {layout} {m m' : Nat → β} {a t : Nat} {xs ys : List (Node α)}

@[simp] theorem addrsNil : addrs ([] : List (Node α)) = [] := rfl

@[simp] theorem addrsCons (x : Node α) (xs : List (Node α)) : addrs (x :: xs) = x.addr :: addrs xs := rfl

@[simp] theorem addrsAppend (xs ys : List (Node α)) : addrs (xs ++ ys) = addrs xs ++ addrs ys :=
  List.map_append

@[simp] theorem addrsLength (xs : List (Node α)) : (addrs xs).length = xs.length := List.length_map _

@[simp] theorem lastAddrConcat (xs : List (Node α)) (x : Node α) : lastAddr (xs ++ [x]) = x.addr := by
  induction xs with
  | nil => rfl
  | cons y rest ih =>
    cases rest with
    | nil => rfl
    | cons z rest => exact ih

@[simp] theorem segNil : Seg layout m a [] t ↔ a = t := Iff.rfl

@[simp] theorem segCons {x : Node α} : Seg layout m a (x :: xs) t ↔
    a = x.addr ∧ x.addr ≠ 0 ∧ layout.payload (m x.addr) = x.value ∧
      Seg layout m (layout.next (m x.addr)) xs t := Iff.rfl

theorem segAppend : Seg layout m a (xs ++ ys) t ↔ ∃ u, Seg layout m a xs u ∧ Seg layout m u ys t := by
  induction xs generalizing a with
  | nil => simp
  | cons x rest ih =>
    simp only [List.cons_append, segCons, ih]
    constructor
    · rintro ⟨rfl, nonzero, value, u, left, right⟩
      exact ⟨u, ⟨rfl, nonzero, value, left⟩, right⟩
    · rintro ⟨u, ⟨rfl, nonzero, value, left⟩, right⟩
      exact ⟨rfl, nonzero, value, u, left, right⟩

theorem segNonzero (h : Seg layout m a xs t) : 0 ∉ addrs xs := by
  induction xs generalizing a with
  | nil => simp
  | cons x rest ih =>
    obtain ⟨_, nonzero, _, tail⟩ := h
    simp only [addrsCons, List.mem_cons, not_or]
    exact ⟨Ne.symm nonzero, ih tail⟩

theorem segFrame (same : ∀ p ∈ addrs xs, m' p = m p) (h : Seg layout m a xs t) :
    Seg layout m' a xs t := by
  induction xs generalizing a with
  | nil => exact h
  | cons x rest ih =>
    obtain ⟨start, nonzero, value, tail⟩ := h
    have here : m' x.addr = m x.addr := same _ (by simp)
    refine ⟨start, nonzero, by rw [here]; exact value, ?_⟩
    rw [here]
    exact ih (fun p mem => same p (by simp [mem])) tail

theorem segUpdate {p : Nat} {c : β} (other : p ∉ addrs xs) (h : Seg layout m a xs t) :
    Seg layout (Function.update m p c) a xs t := by
  apply segFrame _ h
  intro q mem
  apply Function.update_of_ne
  rintro rfl
  exact other mem

theorem segSameStart {a' : Nat} (h : Seg layout m a xs t) (h' : Seg layout m' a' xs t) : a = a' := by
  cases xs with
  | nil => exact h.trans h'.symm
  | cons x rest => exact h.1.trans h'.1.symm

theorem segHeadZero (h : Seg layout m 0 xs 0) : xs = [] := by
  cases xs with
  | nil => rfl
  | cons x rest => exact absurd h.1.symm h.2.1

theorem lastAddrZero (h : Seg layout m a xs t) : lastAddr xs = 0 ↔ xs = [] := by
  rcases List.eq_nil_or_concat xs with rfl | ⟨init, x, rfl⟩
  · simp [lastAddr]
  · have mem : x.addr ∈ addrs (init ++ [x]) := by simp
    have nonzero := segNonzero h
    simp only [List.concat_eq_append, lastAddrConcat, List.append_eq_nil_iff, List.cons_ne_self,
      and_false, iff_false]
    intro zero
    rw [List.concat_eq_append, ← zero] at nonzero
    exact nonzero mem

theorem segRelink {head t' : Nat} (h : Seg layout m head xs t) (nodup : (addrs xs).Nodup) :
    Seg layout (relink layout m head (lastAddr xs) t').1 (relink layout m head (lastAddr xs) t').2 xs t' := by
  rcases List.eq_nil_or_concat xs with rfl | ⟨init, x, rfl⟩
  · simp [relink, lastAddr]
  · rw [List.concat_eq_append] at h nodup ⊢
    obtain ⟨u, left, rfl, nonzero, value, _⟩ := segAppend.mp h
    have apart : x.addr ∉ addrs init := by
      rw [addrsAppend, List.nodup_append] at nodup
      exact fun mem => nodup.2.2 _ mem x.addr (by simp) rfl
    simp only [lastAddrConcat, relink, if_neg nonzero]
    refine segAppend.mpr ⟨x.addr, segUpdate apart left, rfl, nonzero, ?_, ?_⟩
    · rw [Function.update_self, layout.payloadSetNext, value]
    · rw [Function.update_self, layout.nextSetNext]; rfl

theorem relinkElsewhere {head prev x p : Nat} (other : p ≠ prev ∨ prev = 0) :
    (relink layout m head prev x).1 p = m p := by
  unfold relink
  split
  · rfl
  · rename_i nonzero
    exact Function.update_of_ne (other.resolve_right nonzero) _ _

theorem lastAddrMem (xs : List (Node α)) : lastAddr xs = 0 ∨ lastAddr xs ∈ addrs xs := by
  rcases List.eq_nil_or_concat xs with rfl | ⟨init, x, rfl⟩
  · exact Or.inl rfl
  · right
    simp

theorem relinkApart {head x : Nat} (apart : ∀ p ∈ addrs ys, p ∉ addrs xs) (h : Seg layout m a ys t) :
    Seg layout (relink layout m head (lastAddr xs) x).1 a ys t := by
  apply segFrame _ h
  intro p mem
  apply relinkElsewhere
  rcases lastAddrMem xs with zero | inside
  · exact Or.inr zero
  · left
    rintro rfl
    exact apart _ mem inside

section edits
variable {head : Nat} {pre post : List (Node α)} {n : Node α}

theorem nodupSplit (nodup : (addrs (pre ++ n :: post)).Nodup) :
    (addrs pre).Nodup ∧ n.addr ∉ addrs pre ∧ n.addr ∉ addrs post ∧ (∀ p ∈ addrs post, p ∉ addrs pre) := by
  rw [addrsAppend, addrsCons, List.nodup_append] at nodup
  obtain ⟨left, right, apart⟩ := nodup
  refine ⟨left, fun mem => apart _ mem _ (by simp) rfl, (List.nodup_cons.mp right).1, ?_⟩
  intro p later earlier
  exact apart p earlier p (by simp [later]) rfl

theorem segWrite {c : β} (h : Seg layout m head (pre ++ n :: post) t)
    (nodup : (addrs (pre ++ n :: post)).Nodup) (next : layout.next c = layout.next (m n.addr)) :
    Seg layout (Function.update m n.addr c) head (pre ++ ⟨n.addr, layout.payload c⟩ :: post) t := by
  obtain ⟨_, notBefore, notAfter, _⟩ := nodupSplit nodup
  obtain ⟨u, left, rfl, nonzero, _, right⟩ := segAppend.mp h
  refine segAppend.mpr ⟨_, segUpdate notBefore left, rfl, nonzero, ?_, ?_⟩
  · rw [Function.update_self]
  · rw [Function.update_self, next]
    exact segUpdate notAfter right

theorem segUnlink (h : Seg layout m head (pre ++ n :: post) t)
    (nodup : (addrs (pre ++ n :: post)).Nodup) :
    Seg layout (relink layout m head (lastAddr pre) (layout.next (m n.addr))).1
      (relink layout m head (lastAddr pre) (layout.next (m n.addr))).2 (pre ++ post) t := by
  obtain ⟨nodupPre, _, _, apart⟩ := nodupSplit nodup
  obtain ⟨u, left, _, _, _, right⟩ := segAppend.mp h
  exact segAppend.mpr ⟨_, segRelink left nodupPre, relinkApart apart right⟩

theorem segInsert {u u' : Nat} (left : Seg layout m head pre u') (right : Seg layout m u post t)
    (nodup : (addrs (pre ++ n :: post)).Nodup) (nonzero : n.addr ≠ 0)
    (value : layout.payload (m n.addr) = n.value) (next : layout.next (m n.addr) = u) :
    Seg layout (relink layout m head (lastAddr pre) n.addr).1
      (relink layout m head (lastAddr pre) n.addr).2 (pre ++ n :: post) t := by
  obtain ⟨nodupPre, notBefore, _, apart⟩ := nodupSplit nodup
  have here : (relink layout m head (lastAddr pre) n.addr).1 n.addr = m n.addr := by
    apply relinkElsewhere
    rcases lastAddrMem pre with zero | inside
    · exact Or.inr zero
    · exact Or.inl (fun eq => notBefore (eq ▸ inside))
  refine segAppend.mpr ⟨n.addr, segRelink left nodupPre, rfl, nonzero, by rw [here]; exact value, ?_⟩
  rw [here, next]
  exact relinkApart apart right

end edits

theorem walkSeg {fuel : Nat} (h : Seg layout m a xs 0) (enough : xs.length ≤ fuel) :
    walk layout m fuel a = xs := by
  induction fuel generalizing a xs with
  | zero => rw [List.length_eq_zero_iff.mp (Nat.le_zero.mp enough)]; rfl
  | succ fuel ih =>
    cases xs with
    | nil => simp [walk, segNil.mp h]
    | cons x rest =>
      obtain ⟨rfl, nonzero, value, tail⟩ := h
      have rest := ih tail (by simpa using enough)
      simp [walk, nonzero, value, rest]

end Flexbuild.Chains
