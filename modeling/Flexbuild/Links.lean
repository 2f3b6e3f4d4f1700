import Mathlib.Data.List.Chain
import Mathlib.Data.List.Iterate

/-! Doubly linked lists inside a memory of nodes: `next` and `prev` give the links of an index,
and a list of indices is linked when the links lead along it both ways. The link out of either
end may hold anything. -/
namespace Flexbuild.Links

variable {α : Type*} {next prev next' prev' : α → α}

def Linked (next prev : α → α) (l : List α) : Prop :=
  l.IsChain fun a b => next a = b ∧ prev b = a

theorem linkedOne (a : α) : Linked next prev [a] := List.isChain_singleton _

variable {l : List α}

theorem linkedCongr (forward : ∀ a ∈ l.dropLast, next' a = next a)
    (backward : ∀ b ∈ l.tail, prev' b = prev b) (linked : Linked next prev l) :
    Linked next' prev' l := by
  induction l with
  | nil => exact List.isChain_nil
  | cons a l ih =>
    cases l with
    | nil => exact linkedOne a
    | cons b l =>
      obtain ⟨⟨here, back⟩, rest⟩ := List.isChain_cons_cons.mp linked
      refine List.isChain_cons_cons.mpr ⟨⟨?_, ?_⟩, ih ?_ ?_ rest⟩
      · rw [forward a (by simp), here]
      · rw [backward b (by simp), back]
      · exact fun x inside => forward x (by simp [inside])
      · exact fun x inside => backward x (by simp [List.mem_of_mem_tail inside])

theorem linkedInsert {l r : List α} {c : α} (linked : Linked next prev (l ++ r))
    (forward : ∀ a ∈ l.dropLast ++ r.dropLast, next' a = next a)
    (backward : ∀ b ∈ l.tail ++ r.tail, prev' b = prev b)
    (left : ∀ a ∈ l.getLast?, next' a = c ∧ prev' c = a)
    (right : ∀ b ∈ r.head?, next' c = b ∧ prev' b = c) : Linked next' prev' (l ++ c :: r) := by
  obtain ⟨linkedLeft, linkedRight, -⟩ := List.isChain_append.mp linked
  have keptLeft : Linked next' prev' l :=
    linkedCongr (fun a inside => forward a (List.mem_append_left _ inside))
      (fun b inside => backward b (List.mem_append_left _ inside)) linkedLeft
  have keptRight : Linked next' prev' r :=
    linkedCongr (fun a inside => forward a (List.mem_append_right _ inside))
      (fun b inside => backward b (List.mem_append_right _ inside)) linkedRight
  refine List.isChain_append.mpr ⟨keptLeft, List.isChain_cons.mpr ⟨right, keptRight⟩, ?_⟩
  intro a last b first
  cases Option.mem_some_iff.mp first
  exact left a last

theorem linkedReverse (linked : Linked next prev l) : Linked prev next l.reverse :=
  List.isChain_reverse.mpr (List.IsChain.iff (fun _ _ => And.comm) |>.mp linked)

theorem followed {a : α} (linked : Linked next prev (a :: l)) : List.iterate next a (l.length + 1) = a :: l := by
  induction l generalizing a with
  | nil => rfl
  | cons b l ih =>
    obtain ⟨⟨here, -⟩, rest⟩ := List.isChain_cons_cons.mp linked
    rw [List.length_cons, List.iterate, here, ih rest]

theorem followedFrom {a : α} (linked : Linked next prev l) (first : l.head? = some a) :
    List.iterate next a l.length = l := by
  obtain ⟨rest, rfl⟩ := List.head?_eq_some_iff.mp first
  exact followed linked

theorem followedBack {a : α} (linked : Linked next prev l)
    (last : l.getLast? = some a) : List.iterate prev a l.length = l.reverse := by
  rw [← List.length_reverse]
  exact followedFrom (linkedReverse linked) (by rw [List.head?_reverse, last])

end Flexbuild.Links
