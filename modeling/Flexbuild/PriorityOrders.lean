import Mathlib

/-! Lists ordered by a key with arrivals of equal keys in their order of arrival,
and the part of a list of named arrivals that belongs to one name. -/
namespace Flexbuild.PriorityOrders

section stable
variable {α κ : Type*} [LinearOrder κ] {key : α → κ} {arrivals order pre post : List α} {a x : α}

structure Stable (key : α → κ) (arrivals order : List α) : Prop where
  sorted : order.Pairwise (fun a b => key a ≤ key b)
  arrival : ∀ k, order.filter (fun a => key a = k) = arrivals.filter (fun a => key a = k)

theorem stableNil : Stable key ([] : List α) [] := ⟨List.Pairwise.nil, fun _ => rfl⟩

theorem Stable.perm [DecidableEq α] (stable : Stable key arrivals order) : order.Perm arrivals := by
  rw [List.perm_iff_count]
  intro a
  have same := congrArg (List.count a) (stable.arrival (key a))
  rwa [List.count_filter (by simp), List.count_filter (by simp)] at same

theorem Stable.insert (stable : Stable key arrivals (pre ++ post))
    (before : ∀ a ∈ pre, key a ≤ key x) (after : ∀ a ∈ post, key x < key a) :
    Stable key (arrivals ++ [x]) (pre ++ x :: post) := by
  obtain ⟨sortedPre, sortedPost, across⟩ := List.pairwise_append.mp stable.sorted
  constructor
  · refine List.pairwise_append.mpr ⟨sortedPre, ?_, ?_⟩
    · exact List.pairwise_cons.mpr ⟨fun a member => le_of_lt (after a member), sortedPost⟩
    · intro a member b inside
      rcases List.mem_cons.mp inside with rfl | inside
      · exact before a member
      · exact across a member b inside
  · intro k
    have same := stable.arrival k
    rw [List.filter_append] at same
    rw [List.filter_append, List.filter_append, List.filter_cons, ← same]
    by_cases here : key x = k
    · have none : post.filter (fun a => key a = k) = [] := by
        rw [List.filter_eq_nil_iff]
        intro a member
        simp [← here, ne_of_gt (after a member)]
      simp [here, none]
    · simp [here]

theorem filterErase [DecidableEq α] (p : α → Bool) (xs : List α) (x : α) :
    (xs.erase x).filter p = (xs.filter p).erase x := by
  induction xs with
  | nil => rfl
  | cons a rest ih =>
    by_cases same : a = x
    · subst same
      cases kept : p a with
      | true => simp [kept]
      | false =>
        rw [List.erase_cons_head, List.filter_cons_of_neg (by simp [kept])]
        exact (List.erase_of_not_mem (by simp [kept])).symm
    · rw [List.erase_cons_tail (by simpa using same)]
      cases kept : p a <;> simp [kept, ih, same]

theorem Stable.erase [DecidableEq α] (stable : Stable key arrivals order) (x : α) :
    Stable key (arrivals.erase x) (order.erase x) := by
  constructor
  · exact stable.sorted.sublist List.erase_sublist
  · intro k
    have same := congrArg (List.erase · x) (stable.arrival k)
    simpa only [filterErase] using same

theorem Stable.unique {order' : List α} (stable : Stable key arrivals order)
    (stable' : Stable key arrivals order') : order = order' := by
  have same (k : κ) : order.filter (fun a => key a = k) = order'.filter (fun a => key a = k) :=
    (stable.arrival k).trans (stable'.arrival k).symm
  have sorted := stable.sorted
  have sorted' := stable'.sorted
  clear stable stable'
  induction order generalizing order' with
  | nil =>
    cases order' with
    | nil => rfl
    | cons b rest => simpa using same (key b)
  | cons a rest ih =>
    cases order' with
    | nil => simpa using same (key a)
    | cons b rest' =>
      have inside : ∀ c ∈ b :: rest', c ∈ a :: rest := fun c member => by
        have here : c ∈ (a :: rest).filter (fun x => key x = key c) := by
          rw [same (key c)]
          exact List.mem_filter.mpr ⟨member, by simp⟩
        exact List.mem_of_mem_filter here
      have inside' : ∀ c ∈ a :: rest, c ∈ b :: rest' := fun c member => by
        have here : c ∈ (b :: rest').filter (fun x => key x = key c) := by
          rw [← same (key c)]
          exact List.mem_filter.mpr ⟨member, by simp⟩
        exact List.mem_of_mem_filter here
      have low : key a ≤ key b := by
        rcases List.mem_cons.mp (inside b (by simp)) with rfl | later
        · exact le_rfl
        · exact (List.pairwise_cons.mp sorted).1 b later
      have high : key b ≤ key a := by
        rcases List.mem_cons.mp (inside' a (by simp)) with rfl | later
        · exact le_rfl
        · exact (List.pairwise_cons.mp sorted').1 a later
      have equal : key a = key b := le_antisymm low high
      have first : a = b := by
        have heads := same (key a)
        simp only [List.filter_cons, equal, decide_true, if_true, List.cons.injEq] at heads
        exact heads.1
      subst first
      congr 1
      refine ih (fun k => ?_) (List.pairwise_cons.mp sorted).2 (List.pairwise_cons.mp sorted').2
      have tails := same k
      by_cases here : key a = k
      · simpa [List.filter_cons, here] using tails
      · simpa [List.filter_cons, here] using tails

end stable

section named
variable {ι α : Type*} [DecidableEq ι] {k k' : ι} {x : α} {arrivals : List (ι × α)}

def among (k : ι) (arrivals : List (ι × α)) : List α :=
  arrivals.filterMap fun arrival => if arrival.1 = k then some arrival.2 else none

@[simp] theorem amongNil : among k ([] : List (ι × α)) = [] := rfl

theorem memAmong : x ∈ among k arrivals ↔ (k, x) ∈ arrivals := by
  simp only [among, List.mem_filterMap, Option.ite_none_right_eq_some, Option.some.injEq]
  constructor
  · rintro ⟨⟨name, value⟩, member, rfl, rfl⟩
    exact member
  · intro member
    exact ⟨(k, x), member, rfl, rfl⟩

theorem amongSnoc : among k (arrivals ++ [(k', x)]) =
    if k' = k then among k arrivals ++ [x] else among k arrivals := by
  by_cases same : k' = k <;> simp [among, same]

theorem amongErase [DecidableEq α] : among k (arrivals.erase (k', x)) =
    if k' = k then (among k arrivals).erase x else among k arrivals := by
  induction arrivals with
  | nil => simp
  | cons arrival rest ih =>
    obtain ⟨name, value⟩ := arrival
    rw [List.erase_cons]
    by_cases here : (name, value) = (k', x)
    · obtain ⟨rfl, rfl⟩ := Prod.mk.inj here
      by_cases same : name = k <;> simp [among, same]
    · rw [if_neg (by simpa using here)]
      simp only [among, List.filterMap_cons] at ih ⊢
      by_cases named : name = k
      · by_cases same : k' = k
        · have other : value ≠ x := fun eq => here (by rw [eq, named, same])
          simp only [named, if_true, same] at ih ⊢
          rw [ih, List.erase_cons_tail (by simpa using other)]
        · simp only [named, if_true, same, if_false] at ih ⊢
          rw [ih]
      · simp only [named, if_false]
        exact ih

theorem amongLength : (among k arrivals).length ≤ arrivals.length := List.length_filterMap_le _ _

end named

end Flexbuild.PriorityOrders
