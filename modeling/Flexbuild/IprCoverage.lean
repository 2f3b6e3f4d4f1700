import Flexbuild.IprHoldings

/-! The byte ranges of the fragments taken, when none is empty and none ends past 65535. The prefix
tiles the bytes from zero on, the list sorts the rest, and a status that closes the context comes
only with a tiling of the whole datagram. -/
namespace Flexbuild.IprFragments
open Words Links Tilings

def Fragment.Proper (f : Fragment) : Prop := 0 < f.size ∧ f.offset + f.size < maxIpSize

def Context.inOrderTotal (c : Context) : Nat :=
  if c.rfdc.outOfOrder then c.rfdc.totalInOrderPayload else c.rfdc.currentTotalLength

structure Sound (c : Context) (taken : List Fragment) (k : Nat) (order : List Nat) : Prop
    extends Holds c taken k order where
  proper : ∀ f ∈ taken, f.Proper
  tiles : Tiles 0 ((taken.take k).map Fragment.span) c.inOrderTotal
  quiet : c.rfdc.outOfOrder = false →
    c.rfdc.biggestPayload = 0 ∧ c.rfdc.expectedTotalLength = 0
  unseen : c.rfdc.expectedTotalLength = 0 → ∀ f ∈ taken, f.last = false
  seen : c.rfdc.expectedTotalLength ≠ 0 → c.rfdc.expectedTotalLength = c.rfdc.biggestPayload ∧
    ∃ f ∈ taken, f.last = true ∧ f.span.stop = c.rfdc.expectedTotalLength

def Context.arranged (c : Context) (taken : List Fragment) (k : Nat) (order : List Nat) :
    List Span :=
  (taken.take k).map Fragment.span ++ order.map (spanAt c.links)

section
variable {inst : Instance} {c : Context} {f : Fragment} {k : Nat} {order : List Nat}
  {taken : List Fragment}

theorem Sound.sorted (sound : Sound c taken k order) (ooo : c.rfdc.outOfOrder = true) :
    Ordered c order := sound.ordered ooo (.inr fun f member => (sound.proper f member).2)

theorem listedSpans (listed : Listed c k taken.length order)
    (spans : ∀ i ∈ order, taken[i]?.map Fragment.span = some (spanAt c.links i)) :
    (order.map (spanAt c.links)).Perm ((taken.drop k).map Fragment.span) := by
  have inTurn : (taken.drop k).map Fragment.span =
      (List.range' k (taken.length - k)).map (spanAt c.links) := by
    refine List.ext_getElem (by simp) fun i before _ => ?_
    have inside : k + i < taken.length := by
      simp at before
      omega
    have member : k + i ∈ order := listed.mem.mpr ⟨Nat.le_add_right k i, inside⟩
    have span := spans (k + i) member
    rw [List.getElem?_eq_getElem inside] at span
    simpa using Option.some.inj span
  rw [inTurn]
  exact listed.places.map _

theorem Holds.arrangedPerm (held : Holds c taken k order) :
    (c.arranged taken k order).Perm (taken.map Fragment.span) := by
  have all : taken.map Fragment.span =
      (taken.take k).map Fragment.span ++ (taken.drop k).map Fragment.span := by
    rw [← List.map_append, List.take_append_drop]
  rw [all]
  exact (listedSpans held.listed held.spans).append_left _

theorem arrangedSorted {middle : Nat} (tiles : Tiles 0 ((taken.take k).map Fragment.span) middle)
    (sorted : (order.map (spanAt c.links)).IsChain Before)
    (low : ∀ a ∈ order, middle ≤ (spanAt c.links a).offset) :
    (c.arranged taken k order).IsChain Before := by
  refine List.isChain_append.mpr ⟨tilesSorted tiles, sorted, fun a last b first => ?_⟩
  have inside := (tilesInside tiles a (List.mem_of_getLast? last)).2
  obtain ⟨i, member, rfl⟩ := List.mem_map.mp (List.mem_of_mem_head? first)
  exact inside.trans (low i member)

theorem Sound.arrangedSorted (sound : Sound c taken k order) :
    (c.arranged taken k order).IsChain Before := by
  cases ooo : c.rfdc.outOfOrder with
  | true =>
    have ordered := sound.sorted ooo
    have tiles := sound.tiles
    rw [Context.inOrderTotal, if_pos ooo] at tiles
    exact IprFragments.arrangedSorted tiles ordered.sorted ordered.low
  | false =>
    have all := (sound.listed.inOrder ooo).1
    have none : order = [] := by
      have length := sound.listed.length
      rw [all, Nat.sub_self] at length
      exact List.length_eq_zero_iff.mp length
    subst none
    exact IprFragments.arrangedSorted sound.tiles List.isChain_nil (by simp)

theorem Sound.apart (sound : Sound c taken k order) :
    (taken.map Fragment.span).Pairwise Apart :=
  (sound.arrangedPerm.pairwise_iff apartComm).mp (sortedPairwise sound.arrangedSorted)

theorem Sound.sizeSmall (sound : Sound c taken k order) :
    size (taken.map Fragment.span) < maxIpSize := by
  have stops : ∀ a ∈ c.arranged taken k order, a.stop ≤ 65535 := by
    intro a inside
    obtain ⟨f, member, rfl⟩ := List.mem_map.mp (sound.arrangedPerm.mem_iff.mp inside)
    have small : f.offset + f.size < 65536 := (sound.proper f member).2
    simp only [Fragment.span, Span.stop]
    omega
  have bound := sortedSize sound.arrangedSorted (fun a _ => Nat.zero_le a.offset) stops (by decide)
  rw [sizePerm sound.arrangedPerm] at bound
  simp only [maxIpSize]
  omega

theorem Sound.totalExact (sound : Sound c taken k order) :
    c.rfdc.currentTotalLength = size (taken.map Fragment.span) := by
  rw [sound.total]
  exact wrapSmall sound.sizeSmall

theorem Sound.read (sound : Sound c taken k order) : Sound (c.read f) taken k order :=
  { sound with toHolds := sound.toHolds.read }

theorem Sound.firstFragment (sound : Sound c taken k order) (member : f ∈ taken) :
    Sound (firstFragment c f) taken k order := by
  have held := sound.toHolds.firstFragment member
  unfold IprFragments.firstFragment at *
  by_cases first : f.offset = 0
  · rw [if_pos first] at *
    exact { sound with toHolds := held }
  · rw [if_neg first]
    exact sound

variable (inst) in
theorem Sound.continue (sound : Sound c taken k order) (free : c.rfdc.nextIndex = taken.length)
    (prefixOnly : c.rfdc.outOfOrder = false) (next : f.offset = c.rfdc.currentTotalLength)
    (room : taken.length < maxNumOfFrags) (proper : f.Proper) (more : f.last = false) :
    Sound (inOrder inst c f).1 (taken ++ [f]) (taken.length + 1) [] ∧
      (inOrder inst c f).1.rfdc.nextIndex = taken.length + 1 := by
  obtain ⟨slot, ⟨-, last, -⟩ | ⟨⟨kept, -, -⟩ | ⟨-, last⟩, shape⟩⟩ := inOrderCases inst c f
  · exact absurd (more.symm.trans last) (by decide)
  · have held : Held c taken k order := { sound with free := free }
    obtain ⟨holds, index⟩ := held.continue inst prefixOnly next room (by simp [kept])
    have all := (sound.listed.inOrder prefixOnly).1
    have total : wrap 16 (c.rfdc.currentTotalLength + f.size) = f.span.stop := by
      rw [← next]
      exact wrapSmall proper.2
    have tiles := sound.tiles
    rw [all, List.take_length, Context.inOrderTotal, if_neg (by simp [prefixOnly])] at tiles
    refine ⟨{ holds with
      proper := ?_, tiles := ?_, quiet := ?_, unseen := ?_, seen := ?_ }, index kept⟩
    · simpa [or_imp, forall_and, proper] using sound.proper
    · rw [shape]
      simp only [Context.inOrderTotal, prefixOnly, Bool.false_eq_true, if_false, total]
      rw [← List.length_singleton (a := f), ← List.length_append, List.take_length, List.map_append]
      exact tilesStep tiles next
    · rw [shape]
      exact fun _ => sound.quiet prefixOnly
    · rw [shape]
      intro unseen
      simpa [or_imp, forall_and, more] using sound.unseen unseen
    · rw [shape]
      intro seen
      exact absurd (sound.quiet prefixOnly).2 seen
  · exact absurd (more.symm.trans last) (by decide)

theorem Sound.open (sound : Sound c taken k order) (free : c.rfdc.nextIndex = taken.length)
    (prefixOnly : c.rfdc.outOfOrder = false) (beyond : c.rfdc.currentTotalLength < f.offset)
    (room : taken.length < maxNumOfFrags) (proper : f.Proper) :
    Sound (newOutOfOrder c f).1 (taken ++ [f]) taken.length [taken.length] ∧
      (newOutOfOrder c f).1.rfdc.nextIndex = taken.length + 1 := by
  have held : Held c taken k order := { sound with free := free }
  have opened := held.open prefixOnly beyond room fun _ => proper.2
  obtain ⟨all, -, -, zero⟩ := sound.listed.inOrder prefixOnly
  obtain ⟨-, unknown⟩ := sound.quiet prefixOnly
  have stop : wrap 16 (f.offset + f.size) = f.offset + f.size := wrapSmall proper.2
  have ooo : (newOutOfOrder c f).1.rfdc.outOfOrder = true := by
    simp [newOutOfOrder, Context.storeFd, apply_ite Rfdc.outOfOrder]
  have expected : (newOutOfOrder c f).1.rfdc.expectedTotalLength =
      if f.last then f.offset + f.size else 0 := by
    simp [newOutOfOrder, Context.storeFd, stop, apply_ite Rfdc.expectedTotalLength, unknown]
  have biggest : (newOutOfOrder c f).1.rfdc.biggestPayload = f.offset + f.size := by
    simp [newOutOfOrder, Context.storeFd, stop]
  have tiles := sound.tiles
  rw [all, List.take_length, Context.inOrderTotal, if_neg (by simp [prefixOnly])] at tiles
  have positive := proper.1
  refine ⟨{ opened.toHolds with
    proper := ?_, tiles := ?_, quiet := ?_, unseen := ?_, seen := ?_ }, ?_⟩
  · simpa [or_imp, forall_and, proper] using sound.proper
  · rw [List.take_left, Context.inOrderTotal, if_pos ooo]
    by_cases empty : c.rfdc.nextIndex = 0
    · have none : taken = [] := List.length_eq_zero_iff.mp (free.symm.trans empty)
      subst none
      simp [newOutOfOrder, Context.storeFd, empty, zero, Tiles]
    · simpa [newOutOfOrder, Context.storeFd, empty] using tiles
  · exact fun prefixOnly => absurd (ooo.symm.trans prefixOnly) (by decide)
  · intro unseen
    have more : f.last = false := by
      by_contra last
      rw [expected, if_pos (by simpa using last)] at unseen
      omega
    simpa [or_imp, forall_and, more] using sound.unseen unknown
  · intro seen
    have last : f.last = true := by
      by_contra more
      exact seen (by rw [expected, if_neg more])
    rw [expected, if_pos last]
    exact ⟨biggest.symm, f, by simp, last, rfl⟩
  · simpa using opened.free

theorem Sound.insert {l r : List Nat} {c' : Context} (sound : Sound c taken k order)
    (free : c.rfdc.nextIndex = taken.length) (ooo : c.rfdc.outOfOrder = true)
    (room : taken.length < maxNumOfFrags) (proper : f.Proper)
    (result : Insertion c f order l r c') (fits : (placed inst c' f).2 ≠ .malfMaxReassFrmSz) :
    Sound (placed inst c' f).1 (taken ++ [f]) k (l ++ taken.length :: r) ∧
      ((placed inst c' f).2 = .fragOkReassNotCompl →
        (placed inst c' f).1.rfdc.nextIndex = taken.length + 1) := by
  have held : Held c taken k order := { sound with free := free }
  obtain ⟨holds, index⟩ := held.insert ooo room (fun _ => proper.2) result fits
  obtain ⟨slot, ⟨bad, -⟩ | ⟨-, shape⟩⟩ := placedCases inst c' f
  · exact absurd bad fits
  have stop : wrap 16 (f.offset + f.size) = f.offset + f.size := wrapSmall proper.2
  have positive := proper.1
  have tiles := sound.tiles
  rw [Context.inOrderTotal, if_pos ooo] at tiles
  refine ⟨{ holds with
    proper := ?_, tiles := ?_, quiet := ?_, unseen := ?_, seen := ?_ }, index⟩
  · simpa [or_imp, forall_and, proper] using sound.proper
  · rw [shape, result.rfdc, List.take_append_of_le_length sound.listed.below]
    simp only [Context.inOrderTotal, ooo, if_true]
    exact tiles
  · rw [shape, result.rfdc]
    exact fun prefixOnly => absurd (ooo.symm.trans prefixOnly) (by decide)
  · rw [shape, result.rfdc]
    simp only [stop]
    intro unseen
    have notEnd : ¬ (r = [] ∧ f.last = true) := fun atEnd => by
      rw [if_pos atEnd] at unseen
      omega
    rw [if_neg notEnd] at unseen
    have more : f.last = false := by
      by_cases none : r = []
      · simpa [none] using notEnd
      · exact (result.inside none).2
    simpa [or_imp, forall_and, more] using sound.unseen unseen
  · rw [shape, result.rfdc]
    simp only [stop]
    by_cases atEnd : r = [] ∧ f.last = true
    · rw [if_pos atEnd, if_pos atEnd.1]
      exact fun _ => ⟨rfl, f, by simp, atEnd.2, rfl⟩
    · rw [if_neg atEnd]
      intro seen
      have inside : r ≠ [] := fun none => seen (result.atEnd none).2
      rw [if_neg inside]
      obtain ⟨same, g, member, last, stops⟩ := sound.seen seen
      exact ⟨same, g, List.mem_append_left _ member, last, stops⟩

theorem Sound.below (sound : Sound c taken k order) (ooo : c.rfdc.outOfOrder = true) :
    ∀ a ∈ c.arranged taken k order, a.stop ≤ c.rfdc.biggestPayload := by
  obtain ⟨front, i, rfl⟩ := (List.eq_nil_or_concat' order).resolve_left (sound.listed.nonempty ooo)
  rw [(sound.sorted ooo).biggest i (by simp)]
  exact sortedLast sound.arrangedSorted (by simp [Context.arranged])

structure Whole (c : Context) (taken : List Fragment) (slots : List Nat) : Prop where
  all : slots.Perm (List.range taken.length)
  tiles : Tiles 0 ((slots.filterMap (taken[·]?)).map Fragment.span) c.rfdc.currentTotalLength
  last : ∃ f ∈ taken, f.last = true ∧ f.span.stop = c.rfdc.currentTotalLength

theorem rangeFilterMap (taken : List Fragment) {n : Nat} (inside : n ≤ taken.length) :
    (List.range n).filterMap (taken[·]?) = taken.take n := by
  induction n with
  | zero => simp
  | succ n ih =>
    rw [List.range_succ, List.filterMap_append, ih (by omega), List.take_add_one]
    cases here : taken[n]? <;> simp [here]

theorem Whole.perm {slots : List Nat} (whole : Whole c taken slots) :
    ((slots.filterMap (taken[·]?)).map Fragment.span).Perm (taken.map Fragment.span) := by
  have inTurn := rangeFilterMap taken (le_refl taken.length)
  rw [List.take_length] at inTurn
  exact ((whole.all.filterMap _).trans (.of_eq inTurn)).map _

theorem arrangedSlots (holds : Holds c taken k order) :
    ((List.range k ++ order).filterMap (taken[·]?)).map Fragment.span = c.arranged taken k order := by
  rw [List.filterMap_append, rangeFilterMap taken holds.listed.below, List.map_append,
    Context.arranged, List.map_filterMap]
  congr 1
  have spans : ∀ i ∈ order, taken[i]?.map Fragment.span = some (spanAt c.links i) := holds.spans
  rw [List.filterMap_congr spans, List.filterMap_eq_map']

theorem Sound.whole (sound : Sound c taken k order) (ooo : c.rfdc.outOfOrder = true)
    (reached : c.rfdc.currentTotalLength = c.rfdc.expectedTotalLength) :
    Whole c taken (List.range k ++ order) := by
  have ordered := sound.sorted ooo
  have positive : 0 < size (taken.map Fragment.span) := by
    have begun := sound.listed.begun ooo
    obtain ⟨f, rest, rfl⟩ := List.exists_cons_of_ne_nil
      (List.ne_nil_of_length_pos (Nat.zero_lt_of_lt begun))
    have nonempty := (sound.proper f List.mem_cons_self).1
    simp only [List.map_cons, sizeCons, Fragment.span]
    omega
  have total := sound.totalExact
  have known : c.rfdc.expectedTotalLength ≠ 0 := by omega
  obtain ⟨same, f, member, last, stops⟩ := sound.seen known
  refine ⟨prefixAndList sound.toHolds, ?_, f, member, last, stops.trans reached.symm⟩
  rw [arrangedSlots sound.toHolds]
  refine sortedTiles sound.arrangedSorted (fun a _ => Nat.zero_le a.offset) ?_ ?_
  · rw [reached, same]
    exact sound.below ooo
  · rw [sizePerm sound.arrangedPerm, ← total, Nat.zero_add]

theorem soundOpened (hdrLength iphdrOffset fraghdrOffset : Nat) (links : LinkList) :
    Sound (iprMissHandling hdrLength iphdrOffset fraghdrOffset links) [] 0 [] := by
  refine { (heldOpened hdrLength iphdrOffset fraghdrOffset links).toHolds with
    proper := by simp
    tiles := rfl
    quiet := fun _ => ⟨rfl, rfl⟩
    unseen := by simp
    seen := fun known => absurd rfl known }

end

end Flexbuild.IprFragments
