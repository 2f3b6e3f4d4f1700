import Flexbuild.Links
import Flexbuild.Tilings
import Flexbuild.IprFragments

/-! The list of the fragments out of order. Writes that go through an octet of elements amount to
changes of single elements, the walk back from the last element stops where the new fragment may
belong, and the new element then stands between the fragments below it and those above it. -/
namespace Flexbuild.IprFragments
open Words Links Tilings

def nextOf (links : LinkList) (i : Nat) : Nat := (links i).nextIndex

def prevOf (links : LinkList) (i : Nat) : Nat := (links i).prevIndex

def spanAt (links : LinkList) (i : Nat) : Span := ⟨(links i).fragOffset, (links i).fragLength⟩

abbrev LinkedBy (links : LinkList) (order : List Nat) : Prop :=
  Linked (nextOf links) (prevOf links) order

theorem octetSame (i : Nat) : i / 8 * 8 + i % 8 = i := by omega

theorem readOctetSame (links : LinkList) (i : Nat) : readOctet links (i / 8) (i % 8) = links i := by
  rw [readOctet, octetSame]

theorem writeOctetRead (links : LinkList) (octet : Nat) :
    writeOctet links octet (readOctet links octet) = links := by
  funext i
  by_cases inside : i / 8 = octet
  · subst inside
    simp [writeOctet, readOctetSame]
  · simp [writeOctet, inside]

theorem writeOctetUpdate (links linkList : LinkList) (i : Nat) (e : LinkListElement) :
    writeOctet links (i / 8) (Function.update linkList (i % 8) e) =
      Function.update (writeOctet links (i / 8) linkList) i e := by
  funext j
  by_cases same : j = i
  · subst same
    simp [writeOctet]
  · by_cases inside : j / 8 = i / 8
    · have apart : j % 8 ≠ i % 8 := by omega
      simp [writeOctet, same, inside, apart]
    · simp [writeOctet, same, inside]

theorem writeOctetChange (links linkList : LinkList) (i : Nat)
    (edit : LinkListElement → LinkListElement) :
    writeOctet links (i / 8) (change linkList (i % 8) edit) =
      change (writeOctet links (i / 8) linkList) i edit := by
  rw [change, writeOctetUpdate, change]
  simp [writeOctet]

theorem changeSelf (links : LinkList) (i : Nat) (edit : LinkListElement → LinkListElement) :
    change links i edit i = edit (links i) := by simp [change]

theorem changeOther (links : LinkList) {i j : Nat} (edit : LinkListElement → LinkListElement)
    (apart : j ≠ i) : change links i edit j = links j := by simp [change, apart]

theorem changeUpdate (links : LinkList) {i j : Nat} (edit : LinkListElement → LinkListElement)
    (e : LinkListElement) (apart : i ≠ j) :
    change (Function.update links j e) i edit = Function.update (change links i edit) j e := by
  rw [change, Function.update_of_ne apart, change, Function.update_comm apart]

theorem linkFirstPlain (links : LinkList) {temp current : Nat} (offset size : Nat)
    (apart : current ≠ temp) :
    linkFirst links (temp / 8) (readOctet links (temp / 8)) temp current offset size =
      Function.update (change links temp fun e => { e with prevIndex := current }) current
        ⟨offset, size, 0, temp⟩ := by
  unfold linkFirst
  by_cases inside : current / 8 = temp / 8
  · simp only [if_pos inside]
    rw [← inside, writeOctetUpdate, inside, writeOctetChange, writeOctetRead]
  · simp only [if_neg inside]
    generalize besideIs : (if temp % 8 = 0 then temp % 8 + 1 else temp % 8 - 1) = beside
    have elsewhere : temp % 8 ≠ beside := by
      rw [← besideIs]
      split <;> omega
    rw [Function.update_self, Function.update_of_ne elsewhere, changeSelf, readOctetSame,
      Function.update_comm apart, change]

theorem linkBehindPlain (links : LinkList) {temp current new : Nat} (offset size : Nat)
    (successor : (links temp).nextIndex = new) (apart : current ≠ temp) (apartNew : current ≠ new) :
    linkBehind links (temp / 8) (readOctet links (temp / 8)) temp current offset size =
      Function.update
        (change (change links temp fun e => { e with nextIndex := current }) new
          fun e => { e with prevIndex := current })
        current ⟨offset, size, temp, new⟩ := by
  have writeBack (linkList : LinkList) (back : LinkListElement → LinkListElement) :
      (if new / 8 = temp / 8 then writeOctet links (temp / 8) (change linkList (new % 8) back)
        else change (writeOctet links (temp / 8) linkList) new back) =
      change (writeOctet links (temp / 8) linkList) new back := by
    split
    · next inside => rw [← inside, writeOctetChange]
    · rfl
  unfold linkBehind
  simp only [readOctetSame, successor]
  simp only [writeBack]
  simp only [writeOctetChange]
  split
  · next inside =>
    rw [← inside, writeOctetUpdate, inside, writeOctetRead, changeUpdate _ _ _ apart.symm,
      changeUpdate _ _ _ apartNew.symm]
  · rw [writeOctetRead]

-- The walk back over a linked list, from its last element. The induction is on the part before it.
theorem searchFound {links : LinkList} {l : List Nat} {t first stop fuel : Nat}
    (linked : LinkedBy links (l ++ [t])) (distinct : (l ++ [t]).Nodup)
    (begins : (l ++ [t]).head? = some first) (enough : l.length < fuel) :
    (∀ x ∈ l, stop ≤ (links x).fragOffset) ∧
      search links stop first fuel t (t / 8) (readOctet links (t / 8)) =
        some (.first (first / 8) (readOctet links (first / 8)) first) ∨
    ∃ p a q, l = p ++ a :: q ∧ (∀ x ∈ q, stop ≤ (links x).fragOffset) ∧
      ¬ stop ≤ (links a).fragOffset ∧
      search links stop first fuel t (t / 8) (readOctet links (t / 8)) =
        some (.behind (a / 8) (readOctet links (a / 8)) a) := by
  induction l using List.reverseRecOn generalizing t fuel with
  | nil =>
    obtain ⟨fuel, rfl⟩ : ∃ m, fuel = m + 1 := ⟨fuel - 1, by simp at enough; omega⟩
    have here : t = first := by simpa using begins
    subst here
    exact .inl ⟨by simp, by simp [search]⟩
  | append_singleton l a ih =>
    obtain ⟨fuel, rfl⟩ : ∃ m, fuel = m + 1 := ⟨fuel - 1, by simp at enough; omega⟩
    have headOld : (l ++ [a]).head? = some first := by
      cases l <;> simpa using begins
    have member : first ∈ l ++ [a] := List.mem_of_mem_head? headOld
    have notFirst : t ≠ first := by
      rintro rfl
      exact (List.nodup_append.mp distinct).2.2 t member t (by simp) rfl
    obtain ⟨linkedOld, -, between⟩ := List.isChain_append.mp linked
    have back : (links t).prevIndex = a := (between a (by simp) t rfl).2
    have buffer : (if a / 8 ≠ t / 8 then readOctet links (a / 8) else readOctet links (t / 8)) =
        readOctet links (a / 8) := by
      split
      · rfl
      · next same => rw [not_not.mp same]
    have next : search links stop first (fuel + 1) t (t / 8) (readOctet links (t / 8)) =
        if stop ≤ (links a).fragOffset then
          search links stop first fuel a (a / 8) (readOctet links (a / 8))
        else some (.behind (a / 8) (readOctet links (a / 8)) a) := by
      rw [search, if_neg notFirst]
      simp only [readOctetSame, back, buffer]
    rw [next]
    by_cases above : stop ≤ (links a).fragOffset
    · rw [if_pos above]
      rcases ih linkedOld (List.nodup_append.mp distinct).1 headOld (by simp at enough; omega) with
        ⟨all, found⟩ | ⟨p, b, q, split, all, below, found⟩
      · refine .inl ⟨fun x inside => ?_, found⟩
        rcases List.mem_append.mp inside with inside | inside
        · exact all x inside
        · rwa [List.mem_singleton.mp inside]
      · refine .inr ⟨p, b, q ++ [a], by simp [split], fun x inside => ?_, below, found⟩
        rcases List.mem_append.mp inside with inside | inside
        · exact all x inside
        · rwa [List.mem_singleton.mp inside]
    · rw [if_neg above]
      exact .inr ⟨l, a, [], rfl, by simp, above, rfl⟩

end Flexbuild.IprFragments
