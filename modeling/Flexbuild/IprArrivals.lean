import Flexbuild.IprInsertions

/-! One fragment at a context. What its header leaves in the RFDC, the ways its arrival can go,
and what an arrival that takes a place keeps of the list and adds to it. -/
namespace Flexbuild.IprFragments
open Words Links Tilings

def Context.read (c : Context) (f : Fragment) : Context :=
  { c with rfdc := { c.rfdc with
    firstFragHdrLength := if f.offset ≠ 0 then c.rfdc.firstFragHdrLength else f.firstFragHdrLength
    statusNotEct := c.rfdc.statusNotEct || f.ecn == notEct
    statusCe := c.rfdc.statusCe || f.ecn == ce } }

def EcnConflict (c : Context) (f : Fragment) : Prop :=
  f.ecn = notEct ∧ c.rfdc.statusCe = true ∨ f.ecn = ce ∧ c.rfdc.statusNotEct = true

theorem ecnCheckCases (c : Context) (f : Fragment) :
    EcnConflict c f ∧ ecnCheck c.rfdc f = none ∨
    ¬ EcnConflict c f ∧ ∃ r, ecnCheck c.rfdc f = some r ∧ readHeader r f = (c.read f).rfdc := by
  have apart : ce ≠ notEct := by decide
  unfold EcnConflict ecnCheck readHeader Context.read
  by_cases none : f.ecn = notEct
  · have other : (notEct == ce) = false := rfl
    cases congested : c.rfdc.statusCe with
    | true => exact .inl ⟨.inl ⟨none, rfl⟩, by simp [none]⟩
    | false =>
      refine .inr ⟨by simp [none, apart.symm], _, by simp [none]; rfl, ?_⟩
      by_cases first : f.offset ≠ 0 <;> simp [first, none, other]
  · have notNone : (f.ecn == notEct) = false := by simpa using none
    by_cases congested : f.ecn = ce
    · have other : (ce == notEct) = false := rfl
      cases clear : c.rfdc.statusNotEct with
      | true => exact .inl ⟨.inr ⟨congested, rfl⟩, by simp [congested, apart]⟩
      | false =>
        refine .inr ⟨by simp [congested, apart], _, by simp [congested, apart]; rfl, ?_⟩
        by_cases first : f.offset ≠ 0 <;> simp [first, congested, other]
    · have notCongested : (f.ecn == ce) = false := by simpa using congested
      refine .inr ⟨by simp [none, congested], _, by simp [none, congested]; rfl, ?_⟩
      by_cases first : f.offset ≠ 0 <;> simp [first, notNone, notCongested]

def settle (f : Fragment) (result : Context × FragStatus) : Context × FragStatus :=
  if result.2.malformed then result else (firstFragment result.1 f, result.2)

inductive Arrival (inst : Instance) (c : Context) (f : Fragment) (order : List Nat) :
    Context × FragStatus → Prop where
  | ecn (conflict : EcnConflict c f) : Arrival inst c f order (c, .malfEcn)
  | duplicate (clear : ¬ EcnConflict c f) (prefixOnly : c.rfdc.outOfOrder = false)
      (behind : f.offset < c.rfdc.currentTotalLength) :
      Arrival inst c f order (c.read f, .malfOverlapDuplicate)
  | continued (clear : ¬ EcnConflict c f) (prefixOnly : c.rfdc.outOfOrder = false)
      (next : f.offset = c.rfdc.currentTotalLength) :
      Arrival inst c f order
        (firstFragment (inOrder inst (c.read f) f).1 f, (inOrder inst (c.read f) f).2)
  | gap (clear : ¬ EcnConflict c f) (prefixOnly : c.rfdc.outOfOrder = false)
      (beyond : c.rfdc.currentTotalLength < f.offset) :
      Arrival inst c f order
        (firstFragment (newOutOfOrder (c.read f) f).1 f, .fragOkReassNotCompl)
  | refused {s : FragStatus} (clear : ¬ EcnConflict c f) (ooo : c.rfdc.outOfOrder = true)
      (why : Refusal c f order s) :
      Arrival inst c f order (c.read f, s)
  | inserted {l r : List Nat} {c' : Context} (clear : ¬ EcnConflict c f)
      (ooo : c.rfdc.outOfOrder = true) (result : Insertion (c.read f) f order l r c') :
      Arrival inst c f order (settle f (placed inst c' f))

section
variable {inst : Instance} {c : Context} {f : Fragment} {k n : Nat} {order : List Nat}

theorem Listed.read (listed : Listed c k n order) : Listed (c.read f) k n order :=
  { listed with }

theorem refusalMalformed {s : FragStatus} (why : Refusal c f order s) : s.malformed = true := by
  cases why <;> rfl

theorem refusalRead {s : FragStatus} (why : Refusal (c.read f) f order s) :
    Refusal c f order s := by
  cases why with
  | early inPrefix => exact .early inPrefix
  | pastEnd beyond known => exact .pastEnd beyond known
  | lastFrag inside last => exact .lastFrag inside last
  | overlap member inside reaches covered => exact .overlap member inside reaches covered

variable (inst) in
theorem arrivalCases (listed : Listed c k n order) (free : c.rfdc.nextIndex = n) :
    ∃ result, iprInsertToLinkList inst c f = some result ∧ Arrival inst c f order result := by
  rcases ecnCheckCases c f with ⟨conflict, check⟩ | ⟨clear, r, check, read⟩
  · exact ⟨_, by rw [iprInsertToLinkList, check], .ecn conflict⟩
  have whole : ({ c with rfdc := (c.read f).rfdc } : Context) = c.read f := rfl
  simp only [iprInsertToLinkList, check, read, whole]
  cases ooo : c.rfdc.outOfOrder with
  | false =>
    have still : (c.read f).rfdc.outOfOrder = false := ooo
    rcases Nat.lt_trichotomy f.offset c.rfdc.currentTotalLength with behind | next | beyond
    · have notNext : f.offset ≠ (c.read f).rfdc.currentTotalLength := Nat.ne_of_lt behind
      have behind' : f.offset < (c.read f).rfdc.currentTotalLength := behind
      refine ⟨_, ?_, .duplicate clear ooo behind⟩
      simp [still, notNext, behind']
    · have next' : f.offset = (c.read f).rfdc.currentTotalLength := next
      refine ⟨_, ?_, .continued clear ooo next⟩
      simp [still, ← next']
    · have notNext : f.offset ≠ (c.read f).rfdc.currentTotalLength := Nat.ne_of_gt beyond
      have notBehind : ¬ f.offset < (c.read f).rfdc.currentTotalLength := Nat.not_lt.mpr beyond.le
      refine ⟨_, ?_, .gap clear ooo beyond⟩
      simp [still, notNext, notBehind, newOutOfOrder]
  | true =>
    have still : (c.read f).rfdc.outOfOrder = true := ooo
    have here : Listed (c.read f) k (c.read f).rfdc.nextIndex order := free ▸ listed.read
    generalize answer : outOfOrder inst (c.read f) f = verdict
    have verdictHolds := answer ▸ outOfOrderCases inst here still
    cases verdictHolds with
    | refused why =>
      refine ⟨_, ?_, .refused clear ooo (refusalRead why)⟩
      simp [still, refusalMalformed why]
    | @inserted l r c' result =>
      refine ⟨_, ?_, .inserted clear ooo result⟩
      cases bad : (placed inst c' f).2.malformed <;> simp [still, settle, bad]

theorem Listed.firstFragment (listed : Listed c k n order) :
    Listed (firstFragment c f) k n order := by
  unfold IprFragments.firstFragment
  split
  · exact { listed with }
  · exact listed

theorem Listed.continue {c' : Context} (listed : Listed c k n order)
    (prefixOnly : c.rfdc.outOfOrder = false) (room : n < maxNumOfFrags)
    (same : c'.rfdc.outOfOrder = false ∧ c'.rfdc.orderAndOoo = c.rfdc.orderAndOoo ∧
      c'.rfdc.firstFragIndex = c.rfdc.firstFragIndex ∧
      c'.rfdc.totalInOrderPayload = c.rfdc.totalInOrderPayload)
    (counted : c'.rfdc.numOfFrags = n + 1) : Listed c' (n + 1) (n + 1) [] := by
  obtain ⟨-, plain, first, total⟩ := listed.inOrder prefixOnly
  obtain ⟨still, kept, keptFirst, keptTotal⟩ := same
  refine ⟨room, counted, le_rfl, by simp, List.isChain_nil, by simp, by simp, fun _ => ?_, ?_, ?_, ?_⟩
  · exact ⟨rfl, kept.trans plain, keptFirst.trans first, keptTotal.trans total⟩
  all_goals simp [still]

theorem Listed.open (listed : Listed c k n order) (prefixOnly : c.rfdc.outOfOrder = false)
    (free : c.rfdc.nextIndex = n) (room : n < maxNumOfFrags) :
    Listed (newOutOfOrder c f).1 n (n + 1) [n] := by
  obtain ⟨-, plain, first, total⟩ := listed.inOrder prefixOnly
  have narrow : n < 64 := room
  have counted := listed.counted
  have one : n + 1 - n = 1 := by omega
  have wrapped : wrap 8 (n + 1) = n + 1 := wrapSmall (by omega)
  subst free
  unfold newOutOfOrder
  by_cases empty : c.rfdc.nextIndex = 0
  · refine ⟨room, ?_, Nat.le_succ _, ?_, linkedOne _, ?_, ?_, ?_, ?_, ?_, ?_⟩
    · simpa [Context.storeFd, empty, counted] using wrapped
    all_goals simp [Context.storeFd, empty, first, plain, total]
  · refine ⟨room, ?_, Nat.le_succ _, ?_, linkedOne _, ?_, ?_, ?_, ?_, ?_, ?_⟩
    · simpa [Context.storeFd, empty, counted] using wrapped
    · rw [one]
      simp
    all_goals simp [Context.storeFd, empty, Nat.pos_of_ne_zero]

variable (inst) in
theorem placedShape (c : Context) (f : Fragment) : ∃ next fds, (placed inst c f).1 =
    { c with
      rfdc := { c.rfdc with
        currentTotalLength := wrap 16 (c.rfdc.currentTotalLength + f.size)
        numOfFrags := wrap 8 (c.rfdc.numOfFrags + 1)
        nextIndex := next }
      fds := fds } := by
  simp only [placed]
  split
  · split <;> exact ⟨_, _, rfl⟩
  · exact ⟨_, _, rfl⟩

theorem insertedPlaces {l r : List Nat} (listed : Listed c k n order) (split : order = l ++ r) :
    (l ++ n :: r).Perm (List.range' k (n + 1 - k)) := by
  have below := listed.below
  have grown : n + 1 - k = n - k + 1 := by omega
  have last : k + (n - k) = n := by omega
  rw [grown, List.range'_concat, Nat.one_mul, last]
  calc (l ++ n :: r).Perm (n :: (l ++ r)) := List.perm_middle
    _ = n :: order := by rw [split]
    _ |>.Perm (n :: List.range' k (n - k)) := listed.places.cons n
    _ |>.Perm (List.range' k (n - k) ++ [n]) := (List.perm_append_singleton _ _).symm

variable (inst) in
theorem Listed.insert {l r : List Nat} {c' : Context} (listed : Listed c k n order)
    (ooo : c.rfdc.outOfOrder = true) (free : c.rfdc.nextIndex = n) (room : n < maxNumOfFrags)
    (result : Insertion c f order l r c') :
    Listed (placed inst c' f).1 k (n + 1) (l ++ n :: r) := by
  obtain ⟨next, fds, shape⟩ := placedShape inst c' f
  have narrow : n < 64 := room
  have counted : wrap 8 (c.rfdc.numOfFrags + 1) = n + 1 := by
    rw [listed.counted]
    exact wrapSmall (by omega)
  have below := listed.below
  rw [shape, result.rfdc]
  refine ⟨room, counted, below.trans (Nat.le_succ n), insertedPlaces listed result.split,
    free ▸ result.linked, fun a head => ?_, fun a last => ?_, ?_, ?_, ?_, ?_⟩
  · cases l with
    | nil => simpa [free] using head
    | cons b l =>
      have old : a ∈ order.head? := by simpa [result.split] using head
      simpa using listed.first a old
  · cases r with
    | nil => simpa [free] using last
    | cons b r =>
      have old : a ∈ order.getLast? := by
        rw [result.split]
        simpa [List.getLast?_append, List.getLast?_cons_cons] using last
      simpa using listed.final a old
  · intro ordered
    exact absurd (ooo.symm.trans ordered) (by decide)
  · exact fun _ => Nat.lt_succ_of_lt (listed.begun ooo)
  · exact fun _ => listed.alone ooo
  · exact fun _ => listed.mixed ooo

end

end Flexbuild.IprFragments
