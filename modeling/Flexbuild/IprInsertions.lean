import Flexbuild.IprFragmentLists

/-! Where a fragment goes in the list of the fragments out of order. The list holds the places
from the end of the prefix on, in some order; a fragment is refused for one of four reasons, or it
takes the next place and stands between two parts of the list. -/
namespace Flexbuild.IprFragments
open Words Links Tilings

-- `n` fragments are held, the first `k` of them as the prefix and the others linked along `order`.
structure Listed (c : Context) (k n : Nat) (order : List Nat) : Prop where
  few : n ≤ maxNumOfFrags
  counted : c.rfdc.numOfFrags = n
  below : k ≤ n
  places : order.Perm (List.range' k (n - k))
  linked : LinkedBy c.links order
  first : ∀ a ∈ order.head?, c.rfdc.firstFragIndex = a
  final : ∀ a ∈ order.getLast?, c.rfdc.lastFragIndex = a
  inOrder : c.rfdc.outOfOrder = false →
    k = n ∧ c.rfdc.orderAndOoo = false ∧ c.rfdc.firstFragIndex = 0 ∧ c.rfdc.totalInOrderPayload = 0
  begun : c.rfdc.outOfOrder = true → k < n
  alone : c.rfdc.outOfOrder = true → c.rfdc.orderAndOoo = false →
    k = 0 ∧ c.rfdc.totalInOrderPayload = 0
  mixed : c.rfdc.outOfOrder = true → c.rfdc.orderAndOoo = true →
    k = c.rfdc.indexToOutOfOrder ∧ 0 < k

section
variable {c : Context} {k n : Nat} {order : List Nat}

theorem Listed.mem (listed : Listed c k n order) {i : Nat} : i ∈ order ↔ k ≤ i ∧ i < n := by
  have below := listed.below
  rw [listed.places.mem_iff, List.mem_range'_1]
  omega

theorem Listed.nodup (listed : Listed c k n order) : order.Nodup :=
  listed.places.nodup_iff.mpr List.nodup_range'

theorem Listed.length (listed : Listed c k n order) : order.length = n - k := by
  simpa using listed.places.length_eq

theorem Listed.nonempty (listed : Listed c k n order) (ooo : c.rfdc.outOfOrder = true) :
    order ≠ [] := by
  have begun := listed.begun ooo
  have length := listed.length
  rintro rfl
  simp only [List.length_nil] at length
  omega

end

structure Inserted (c : Context) (f : Fragment) (l r : List Nat) (c' : Context) : Prop where
  linked : LinkedBy c'.links (l ++ c.rfdc.nextIndex :: r)
  own : spanAt c'.links c.rfdc.nextIndex = ⟨f.offset, f.size⟩
  others : ∀ i, i ≠ c.rfdc.nextIndex → spanAt c'.links i = spanAt c.links i
  fds : c'.fds = c.fds
  rfdc : c'.rfdc = { c.rfdc with
    firstFragIndex := if l = [] then c.rfdc.nextIndex else c.rfdc.firstFragIndex
    lastFragIndex := if r = [] then c.rfdc.nextIndex else c.rfdc.lastFragIndex
    biggestPayload := if r = [] then wrap 16 (f.offset + f.size) else c.rfdc.biggestPayload
    expectedTotalLength :=
      if r = [] ∧ f.last = true then wrap 16 (f.offset + f.size) else c.rfdc.expectedTotalLength }

structure Place (c : Context) (f : Fragment) (order l r : List Nat) : Prop where
  split : order = l ++ r
  afterPrefix : c.rfdc.totalInOrderPayload ≤ f.offset
  above : ∀ b ∈ r, f.offset + f.size ≤ (spanAt c.links b).offset
  below : r ≠ [] → ∀ a ∈ l.getLast?, wrap 16 (spanAt c.links a).stop ≤ f.offset
  atEnd : r = [] → c.rfdc.biggestPayload ≤ f.offset ∧ c.rfdc.expectedTotalLength = 0
  inside : r ≠ [] → f.offset < c.rfdc.biggestPayload ∧ f.last = false

structure Insertion (c : Context) (f : Fragment) (order l r : List Nat) (c' : Context) : Prop
    extends Inserted c f l r c', Place c f order l r

inductive Refusal (c : Context) (f : Fragment) (order : List Nat) : FragStatus → Prop where
  | early (inPrefix : f.offset < c.rfdc.totalInOrderPayload) :
      Refusal c f order .malfOverlapDuplicate
  | pastEnd (beyond : c.rfdc.biggestPayload ≤ f.offset) (known : c.rfdc.expectedTotalLength ≠ 0) :
      Refusal c f order .malfPastEnd
  | lastFrag (inside : f.offset < c.rfdc.biggestPayload) (last : f.last = true) :
      Refusal c f order .malfLastFrag
  | overlap {a : Nat} (member : a ∈ order) (inside : f.offset < c.rfdc.biggestPayload)
      (reaches : (spanAt c.links a).offset < f.offset + f.size)
      (covered : f.offset < wrap 16 (spanAt c.links a).stop ∨ a ∈ order.getLast?) :
      Refusal c f order .malfOverlapDuplicate

inductive Verdict (inst : Instance) (c : Context) (f : Fragment) (order : List Nat) :
    Option (Context × FragStatus) → Prop where
  | refused {s : FragStatus} (why : Refusal c f order s) : Verdict inst c f order (some (c, s))
  | inserted {l r : List Nat} {c' : Context} (result : Insertion c f order l r c') :
      Verdict inst c f order (some (placed inst c' f))

section
variable {c : Context} {f : Fragment}

theorem insertedLast {l : List Nat} {t : Nat} (linked : LinkedBy c.links (l ++ [t]))
    (distinct : (l ++ [t]).Nodup) (fresh : c.rfdc.nextIndex ∉ l ++ [t])
    (final : c.rfdc.lastFragIndex = t) :
    Inserted c f (l ++ [t]) []
      { c with
        rfdc := { c.rfdc with
          expectedTotalLength :=
            if f.last then wrap 16 (f.offset + f.size) else c.rfdc.expectedTotalLength
          biggestPayload := wrap 16 (f.offset + f.size)
          lastFragIndex := c.rfdc.nextIndex }
        links := Function.update
          (change c.links c.rfdc.lastFragIndex fun e => { e with nextIndex := c.rfdc.nextIndex })
          c.rfdc.nextIndex ⟨f.offset, f.size, c.rfdc.lastFragIndex, 0⟩ } := by
  subst final
  have apart : ∀ x ∈ l, x ≠ c.rfdc.lastFragIndex := fun x inside =>
    (List.nodup_append.mp distinct).2.2 x inside _ (by simp)
  have away : ∀ x ∈ l ++ [c.rfdc.lastFragIndex], x ≠ c.rfdc.nextIndex := fun x inside same =>
    fresh (same ▸ inside)
  have awayLast := away c.rfdc.lastFragIndex (by simp)
  have whole : LinkedBy c.links ((l ++ [c.rfdc.lastFragIndex]) ++ []) := by simpa using linked
  refine ⟨linkedInsert whole ?_ ?_ ?_ (by simp), ?_, fun i other => ?_, rfl, by simp⟩
  · intro x inside
    have member : x ∈ l := by simpa using inside
    simp [nextOf, away x (by simp [member]), changeOther _ _ (apart x member)]
  · intro x inside
    have member : x ∈ l ++ [c.rfdc.lastFragIndex] := List.mem_of_mem_tail (by simpa using inside)
    simp only [prevOf, Function.update_of_ne (away x member)]
    by_cases same : x = c.rfdc.lastFragIndex
    · rw [same, changeSelf]
    · rw [changeOther _ _ same]
  · intro a last
    have here : a = c.rfdc.lastFragIndex := by simpa using last.symm
    subst here
    simp [nextOf, prevOf, awayLast, changeSelf]
  · simp [spanAt]
  · simp only [spanAt, Function.update_of_ne other]
    by_cases same : i = c.rfdc.lastFragIndex
    · rw [same, changeSelf]
    · rw [changeOther _ _ same]

theorem insertedFirst {b : Nat} {r : List Nat} (linked : LinkedBy c.links (b :: r))
    (distinct : (b :: r).Nodup) (fresh : c.rfdc.nextIndex ∉ b :: r) :
    Inserted c f [] (b :: r)
      { c with
        rfdc := { c.rfdc with firstFragIndex := c.rfdc.nextIndex }
        links := linkFirst c.links (b / 8) (readOctet c.links (b / 8)) b c.rfdc.nextIndex
          f.offset f.size } := by
  have apart : ∀ x ∈ r, x ≠ b := fun x inside same =>
    (List.nodup_cons.mp distinct).1 (same ▸ inside)
  have away : ∀ x ∈ b :: r, x ≠ c.rfdc.nextIndex := fun x inside same => fresh (same ▸ inside)
  have awayFirst := away b List.mem_cons_self
  have whole : LinkedBy c.links ([] ++ b :: r) := linked
  rw [linkFirstPlain _ _ _ awayFirst.symm]
  refine ⟨linkedInsert whole ?_ ?_ (by simp) ?_, ?_, fun i other => ?_, rfl, by simp⟩
  · intro x inside
    have member : x ∈ b :: r := List.dropLast_subset _ (by simpa using inside)
    simp only [nextOf, Function.update_of_ne (away x member)]
    by_cases same : x = b
    · rw [same, changeSelf]
    · rw [changeOther _ _ same]
  · intro x inside
    have member : x ∈ r := by simpa using inside
    simp [prevOf, away x (List.mem_cons_of_mem _ member), changeOther _ _ (apart x member)]
  · intro a first
    have here : a = b := by simpa using first.symm
    subst here
    simp [nextOf, prevOf, awayFirst, changeSelf]
  · simp [spanAt]
  · simp only [spanAt, Function.update_of_ne other]
    by_cases same : i = b
    · rw [same, changeSelf]
    · rw [changeOther _ _ same]

theorem insertedBehind {p q : List Nat} {a b : Nat} (linked : LinkedBy c.links (p ++ a :: b :: q))
    (distinct : (p ++ a :: b :: q).Nodup) (fresh : c.rfdc.nextIndex ∉ p ++ a :: b :: q) :
    Inserted c f (p ++ [a]) (b :: q)
      { c with
        links := linkBehind c.links (a / 8) (readOctet c.links (a / 8)) a c.rfdc.nextIndex
          f.offset f.size } := by
  have whole : LinkedBy c.links ((p ++ [a]) ++ b :: q) := by simpa using linked
  have distinct' : ((p ++ [a]) ++ b :: q).Nodup := by simpa using distinct
  obtain ⟨distinctLeft, distinctRight, crossed⟩ := List.nodup_append.mp distinct'
  have away : ∀ x ∈ (p ++ [a]) ++ b :: q, x ≠ c.rfdc.nextIndex := fun x inside same =>
    fresh (by simpa [same] using inside)
  have awayA := away a (by simp)
  have awayB := away b (by simp)
  have apart : a ≠ b := crossed a (by simp) b (by simp)
  have successor : (c.links a).nextIndex = b :=
    ((List.isChain_append.mp whole).2.2 a (by simp) b rfl).1
  rw [linkBehindPlain _ _ _ successor awayA.symm awayB.symm]
  refine ⟨linkedInsert whole ?_ ?_ ?_ ?_, ?_, fun i other => ?_, rfl, by simp⟩
  · intro x inside
    have notA : x ≠ a := by
      rintro rfl
      rcases List.mem_append.mp inside with inside | inside
      · exact (List.nodup_append.mp distinctLeft).2.2 x (by simpa using inside) x (by simp) rfl
      · exact crossed x (by simp) x (List.dropLast_subset _ inside) rfl
    have member : x ∈ (p ++ [a]) ++ b :: q := by
      rcases List.mem_append.mp inside with inside | inside
      · exact List.mem_append_left _ (List.dropLast_subset _ inside)
      · exact List.mem_append_right _ (List.dropLast_subset _ inside)
    simp only [nextOf, Function.update_of_ne (away x member)]
    by_cases same : x = b
    · rw [same, changeSelf, changeOther _ _ apart.symm]
    · rw [changeOther _ _ same, changeOther _ _ notA]
  · intro x inside
    have notB : x ≠ b := by
      rintro rfl
      rcases List.mem_append.mp inside with inside | inside
      · exact crossed x (List.mem_of_mem_tail inside) x (by simp) rfl
      · exact (List.nodup_cons.mp distinctRight).1 (by simpa using inside)
    have member : x ∈ (p ++ [a]) ++ b :: q := by
      rcases List.mem_append.mp inside with inside | inside
      · exact List.mem_append_left _ (List.mem_of_mem_tail inside)
      · exact List.mem_append_right _ (List.mem_of_mem_tail inside)
    simp only [prevOf, Function.update_of_ne (away x member), changeOther _ _ notB]
    by_cases same : x = a
    · rw [same, changeSelf]
    · rw [changeOther _ _ same]
  · intro x last
    have here : x = a := by simpa using last.symm
    subst here
    simp [nextOf, prevOf, awayA, changeOther _ _ apart, changeSelf]
  · intro x first
    have here : x = b := by simpa using first.symm
    subst here
    simp [nextOf, prevOf, awayB, changeSelf]
  · simp [spanAt]
  · simp only [spanAt, Function.update_of_ne other]
    by_cases same : i = b
    · rw [same, changeSelf, changeOther _ _ apart.symm]
    · rw [changeOther _ _ same]
      by_cases same : i = a
      · rw [same, changeSelf]
      · rw [changeOther _ _ same]

theorem outOfOrderCases (inst : Instance) {k : Nat} {order : List Nat}
    (listed : Listed c k c.rfdc.nextIndex order) (ooo : c.rfdc.outOfOrder = true) :
    Verdict inst c f order (outOfOrder inst c f) := by
  have fresh : c.rfdc.nextIndex ∉ order := fun inside => by
    have := (listed.mem.mp inside).2
    omega
  obtain ⟨l, t, rfl⟩ := List.eq_nil_or_concat' order |>.resolve_left (listed.nonempty ooo)
  obtain rfl : c.rfdc.lastFragIndex = t := listed.final t (by simp)
  unfold outOfOrder
  by_cases early : f.offset < c.rfdc.totalInOrderPayload
  · rw [if_pos early]
    exact .refused (.early early)
  rw [if_neg early]
  by_cases beyond : f.offset ≥ c.rfdc.biggestPayload
  · rw [if_pos beyond]
    by_cases known : c.rfdc.expectedTotalLength ≠ 0
    · rw [if_pos known]
      exact .refused (.pastEnd beyond known)
    · rw [if_neg known]
      exact .inserted
        { insertedLast listed.linked listed.nodup fresh rfl with
          split := by simp
          afterPrefix := Nat.le_of_not_lt early
          above := by simp
          below := fun more => absurd rfl more
          atEnd := fun _ => ⟨beyond, not_not.mp known⟩
          inside := fun more => absurd rfl more }
  · rw [if_neg beyond]
    have inside : f.offset < c.rfdc.biggestPayload := Nat.lt_of_not_le beyond
    by_cases last : f.last = true
    · rw [if_pos last]
      exact .refused (.lastFrag inside last)
    rw [if_neg last]
    have more : f.last = false := by simpa using last
    simp only [readOctetSame]
    by_cases reaches : f.offset + f.size > (c.links c.rfdc.lastFragIndex).fragOffset
    · rw [if_pos reaches]
      exact .refused
        (.overlap (a := c.rfdc.lastFragIndex) (by simp) inside reaches (.inr (by simp)))
    rw [if_neg reaches]
    obtain ⟨b, r, whole⟩ : ∃ b r, l ++ [c.rfdc.lastFragIndex] = b :: r :=
      List.exists_cons_of_ne_nil (by simp)
    have begins : (l ++ [c.rfdc.lastFragIndex]).head? = some c.rfdc.firstFragIndex := by
      rw [whole, listed.first b (by rw [whole]; rfl)]
      rfl
    have short : l.length < 256 := by
      have length := listed.length
      have few := listed.few
      simp only [List.length_append, List.length_singleton, maxNumOfFrags] at length few
      omega
    rcases searchFound listed.linked listed.nodup begins short with
      ⟨all, found⟩ | ⟨p, a, q, split, all, low, found⟩
    · rw [found]
      obtain rfl : c.rfdc.firstFragIndex = b := listed.first b (by rw [whole]; rfl)
      have above : ∀ x ∈ l ++ [c.rfdc.lastFragIndex],
          f.offset + f.size ≤ (spanAt c.links x).offset := by
        intro x member
        rcases List.mem_append.mp member with member | member
        · exact all x member
        · rw [List.mem_singleton.mp member]
          exact Nat.le_of_not_lt reaches
      rw [whole] at above
      have linked := whole ▸ listed.linked
      have distinct := whole ▸ listed.nodup
      exact .inserted
        { insertedFirst linked distinct (whole ▸ fresh) with
          split := by simp [whole]
          afterPrefix := Nat.le_of_not_lt early
          above := above
          below := by simp
          atEnd := by simp
          inside := fun _ => ⟨inside, more⟩ }
    · rw [found]
      subst split
      simp only [readOctetSame]
      by_cases clear : f.offset ≥ wrap 16 ((c.links a).fragOffset + (c.links a).fragLength)
      · rw [if_pos clear]
        obtain ⟨b, r, tail⟩ : ∃ b r, q ++ [c.rfdc.lastFragIndex] = b :: r :=
          List.exists_cons_of_ne_nil (by simp)
        have order : (p ++ a :: q) ++ [c.rfdc.lastFragIndex] = p ++ a :: b :: r := by simp [tail]
        have above : ∀ x ∈ b :: r, f.offset + f.size ≤ (spanAt c.links x).offset := by
          rw [← tail]
          intro x member
          rcases List.mem_append.mp member with member | member
          · exact all x member
          · rw [List.mem_singleton.mp member]
            exact Nat.le_of_not_lt reaches
        have linked : LinkedBy c.links (p ++ a :: b :: r) := order ▸ listed.linked
        have distinct : (p ++ a :: b :: r).Nodup := order ▸ listed.nodup
        have below : ∀ x ∈ (p ++ [a]).getLast?, wrap 16 (spanAt c.links x).stop ≤ f.offset := by
          intro x here
          have same : a = x := by simpa using here
          exact same ▸ clear
        exact .inserted
          { insertedBehind linked distinct (order ▸ fresh) with
            split := by simp [tail]
            afterPrefix := Nat.le_of_not_lt early
            above := above
            below := fun _ => below
            atEnd := by simp
            inside := fun _ => ⟨inside, more⟩ }
      · rw [if_neg clear]
        exact .refused (.overlap (a := a) (by simp) inside (Nat.lt_of_not_le low)
          (.inl (Nat.lt_of_not_le clear)))

end

end Flexbuild.IprFragments
