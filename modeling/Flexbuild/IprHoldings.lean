import Flexbuild.IprReassembly

/-! What a context holds after the fragments it has taken. Slot and list element of a fragment
have the number of its turn; the fragments out of order are sorted along the list as long as none
of them ends where a length of sixteen bits is zero again. -/
namespace Flexbuild.IprFragments
open Words Links Tilings

def Fragment.span (f : Fragment) : Span := ⟨f.offset, f.size⟩

structure Ordered (c : Context) (order : List Nat) : Prop where
  sorted : (order.map (spanAt c.links)).IsChain Before
  low : ∀ a ∈ order, c.rfdc.totalInOrderPayload ≤ (spanAt c.links a).offset
  small : ∀ a ∈ order, (spanAt c.links a).stop < maxIpSize
  biggest : ∀ a ∈ order.getLast?, c.rfdc.biggestPayload = (spanAt c.links a).stop

structure Holds (c : Context) (taken : List Fragment) (k : Nat) (order : List Nat) : Prop where
  listed : Listed c k taken.length order
  valid : c.rfdc.valid = true
  stored : c.fds = stores taken
  spans : ∀ i ∈ order, taken[i]?.map Fragment.span = some (spanAt c.links i)
  begun : 0 < k → ∃ f, taken[0]? = some f ∧ f.offset = 0
  arrived : c.rfdc.firstArrived = true → ∃ f ∈ taken, f.offset = 0
  total : c.rfdc.currentTotalLength = wrap 16 (size (taken.map Fragment.span))
  ordered : c.rfdc.outOfOrder = true →
    (c.rfdc.orderAndOoo = false ∨ ∀ f ∈ taken, f.offset + f.size < maxIpSize) → Ordered c order

structure Held (c : Context) (taken : List Fragment) (k : Nat) (order : List Nat) : Prop
    extends Holds c taken k order where
  free : c.rfdc.nextIndex = taken.length

theorem storesSnoc (taken : List Fragment) (f : Fragment) :
    stores (taken ++ [f]) = (taken.length, f.storedFd) :: stores taken := by
  simp [stores, List.zipIdx_append]

theorem storesLookup (taken : List Fragment) (i : Nat) :
    (stores taken).lookup i = taken[i]?.map Fragment.storedFd := by
  induction taken using List.reverseRecOn with
  | nil => rfl
  | append_singleton taken f ih =>
    rw [storesSnoc, List.lookup_cons, ih]
    by_cases here : i = taken.length
    · simp [here]
    · have apart : (i == taken.length) = false := by simpa using here
      rw [apart]
      by_cases inside : i < taken.length
      · simp [List.getElem?_append_left inside]
      · have beyond : (taken ++ [f])[i]? = none := by simp; omega
        have outside : taken[i]? = none := by simp; omega
        simp [beyond, outside]

theorem wrapAdd (a b : Nat) : wrap 16 (wrap 16 a + b) = wrap 16 (a + b) := Nat.mod_add_mod ..

section
variable {inst : Instance} {c : Context} {f : Fragment} {k : Nat} {order : List Nat}
  {taken : List Fragment}

theorem spansInserted {l r : List Nat} {c' : Context} (fresh : c.rfdc.nextIndex ∉ order)
    (result : Insertion c f order l r c') :
    (l ++ c.rfdc.nextIndex :: r).map (spanAt c'.links) =
      l.map (spanAt c.links) ++ f.span :: r.map (spanAt c.links) := by
  have same : ∀ i ∈ l ++ r, spanAt c'.links i = spanAt c.links i := fun i inside =>
    result.others i fun here => fresh (by rw [result.split]; exact here ▸ inside)
  rw [List.map_append, List.map_cons, result.own]
  rw [List.map_congr_left fun i inside => same i (List.mem_append_left _ inside),
    List.map_congr_left fun i inside => same i (List.mem_append_right _ inside)]
  rfl

theorem Ordered.insert {l r : List Nat} {c' : Context} (ordered : Ordered c order)
    (fresh : c.rfdc.nextIndex ∉ order)
    (result : Insertion c f order l r c') (ends : f.offset + f.size < maxIpSize) :
    Ordered (placed inst c' f).1 (l ++ c.rfdc.nextIndex :: r) := by
  obtain ⟨next, fds, shape⟩ := placedShape inst c' f
  have spans := spansInserted fresh result
  have split := result.split
  have sorted := ordered.sorted
  rw [split, List.map_append] at sorted
  obtain ⟨sortedLeft, sortedRight, -⟩ := List.isChain_append.mp sorted
  have narrow (n : Nat) (small : n < maxIpSize) : wrap 16 n = n := wrapSmall small
  have leftBelow : ∀ a ∈ l.getLast?, (spanAt c.links a).stop ≤ f.offset := by
    intro a last
    by_cases none : r = []
    · have final : a ∈ order.getLast? := by simpa [split, none] using last
      rw [← ordered.biggest a final]
      exact (result.atEnd none).1
    · have member : a ∈ order := by
        rw [split]
        exact List.mem_append_left _ (List.mem_of_getLast? last)
      rw [← narrow _ (ordered.small a member)]
      exact result.below none a last
  have member : ∀ a ∈ l ++ c.rfdc.nextIndex :: r,
      spanAt c'.links a = f.span ∨ a ∈ order ∧ spanAt c'.links a = spanAt c.links a := by
    intro a inside
    by_cases here : a = c.rfdc.nextIndex
    · exact .inl (here ▸ result.own)
    · refine .inr ⟨?_, result.others a here⟩
      rw [split]
      simpa [here] using inside
  rw [shape]
  refine ⟨?_, fun a inside => ?_, fun a inside => ?_, fun a last => ?_⟩
  · dsimp only
    rw [spans]
    refine List.isChain_append.mpr ⟨sortedLeft, List.isChain_cons.mpr ⟨?_, sortedRight⟩, ?_⟩
    · intro b first
      obtain ⟨i, head, rfl⟩ := List.mem_map.mp (List.mem_of_mem_head? first)
      exact result.above i head
    · intro a last b first
      obtain ⟨i, final, rfl⟩ : ∃ i ∈ l.getLast?, spanAt c.links i = a := by
        simpa [List.getLast?_map] using last
      cases Option.mem_some_iff.mp first
      exact leftBelow i final
  · simp only [result.rfdc]
    rcases member a inside with own | ⟨old, same⟩
    · rw [own]
      exact result.afterPrefix
    · rw [same]
      exact ordered.low a old
  · dsimp only
    rcases member a inside with own | ⟨old, same⟩
    · rw [own]
      exact ends
    · rw [same]
      exact ordered.small a old
  · simp only [result.rfdc]
    by_cases none : r = []
    · have here : c.rfdc.nextIndex = a := by simpa [none] using last
      rw [if_pos none, ← here, result.own, narrow _ ends]
      rfl
    · obtain ⟨b, rest, rfl⟩ := List.exists_cons_of_ne_nil none
      have final : a ∈ order.getLast? := by
        rw [split]
        simpa [List.getLast?_append, List.getLast?_cons_cons] using last
      have away : a ≠ c.rfdc.nextIndex := fun here =>
        fresh (here ▸ List.mem_of_getLast? final)
      rw [if_neg none, result.others a away]
      exact ordered.biggest a final

theorem fdAtStored (stored : c.fds = stores taken) (i : Nat) :
    c.fdAt i = taken[i]?.map Fragment.storedFd := by
  rw [Context.fdAt, stored, storesLookup]

theorem takenStores (stored : c.fds = stores taken) :
    ((List.range taken.length).map c.taken).Perm
      (c.fds.map fun entry => (entry.1, some entry.2)) := by
  have listed : (List.range taken.length).map c.taken =
      taken.zipIdx.map fun entry => (entry.2, some entry.1.storedFd) := by
    refine List.ext_getElem (by simp) fun i before _ => ?_
    have inside : i < taken.length := by simpa using before
    simp [Context.taken, fdAtStored stored, inside]
  rw [listed, stored, stores, List.map_reverse, List.map_map]
  exact (List.reverse_perm _).symm

theorem piecesTaken (slots : List Nat) :
    (c.pieces slots).map (fun p => (p.slot, p.fd)) = slots.map c.taken := by
  cases slots with
  | nil => rfl
  | cons a slots => simp [Context.pieces, Context.presented, Context.concatenated, Context.taken]

variable (inst) in
theorem inOrderCases (c : Context) (f : Fragment) : ∃ next,
    (inOrder inst c f).2 = .malfMaxReassFrmSz ∧ f.last = true ∧
      inst.maxReassFrmSize <
        wrap 16 (c.rfdc.currentTotalLength + f.size) + c.rfdc.firstFragHdrLength ∨
    ((inOrder inst c f).2 = .fragOkReassNotCompl ∧ f.last = false ∧
        next = wrap 8 (c.rfdc.nextIndex + 1) ∨
      (inOrder inst c f).2 = .lastFragInOrder ∧ f.last = true) ∧
    (inOrder inst c f).1 = { c with
      rfdc := { c.rfdc with
        currentTotalLength := wrap 16 (c.rfdc.currentTotalLength + f.size)
        numOfFrags := wrap 8 (c.rfdc.numOfFrags + 1)
        nextIndex := next }
      fds := (c.rfdc.nextIndex, f.storedFd) :: c.fds } := by
  simp only [inOrder]
  cases last : f.last with
  | false => exact ⟨_, .inr ⟨.inl ⟨rfl, rfl, rfl⟩, rfl⟩⟩
  | true =>
    rw [if_pos rfl]
    by_cases fits : wrap 16 (c.rfdc.currentTotalLength + f.size) + c.rfdc.firstFragHdrLength ≤
        inst.maxReassFrmSize
    · rw [if_pos fits]
      exact ⟨_, .inr ⟨.inr ⟨rfl, rfl⟩, rfl⟩⟩
    · rw [if_neg fits]
      exact ⟨0, .inl ⟨rfl, rfl, Nat.lt_of_not_le fits⟩⟩

variable (inst) in
theorem placedCases (c : Context) (f : Fragment) : ∃ next,
    (placed inst c f).2 = .malfMaxReassFrmSz ∧
      wrap 16 (c.rfdc.currentTotalLength + f.size) = c.rfdc.expectedTotalLength ∧
      inst.maxReassFrmSize <
        wrap 16 (c.rfdc.currentTotalLength + f.size) + c.rfdc.firstFragHdrLength ∨
    ((placed inst c f).2 = .fragOkReassNotCompl ∧
        wrap 16 (c.rfdc.currentTotalLength + f.size) ≠ c.rfdc.expectedTotalLength ∧
        next = wrap 8 (c.rfdc.nextIndex + 1) ∨
      (placed inst c f).2 = .lastFragOutOfOrder ∧
        wrap 16 (c.rfdc.currentTotalLength + f.size) = c.rfdc.expectedTotalLength) ∧
    (placed inst c f).1 = { c with
      rfdc := { c.rfdc with
        currentTotalLength := wrap 16 (c.rfdc.currentTotalLength + f.size)
        numOfFrags := wrap 8 (c.rfdc.numOfFrags + 1)
        nextIndex := next }
      fds := (c.rfdc.nextIndex, f.storedFd) :: c.fds } := by
  simp only [placed]
  by_cases whole : wrap 16 (c.rfdc.currentTotalLength + f.size) = c.rfdc.expectedTotalLength
  · rw [if_pos whole]
    by_cases fits : wrap 16 (c.rfdc.currentTotalLength + f.size) + c.rfdc.firstFragHdrLength ≤
        inst.maxReassFrmSize
    · rw [if_pos fits]
      exact ⟨_, .inr ⟨.inr ⟨rfl, whole⟩, rfl⟩⟩
    · rw [if_neg fits]
      exact ⟨0, .inl ⟨rfl, whole, Nat.lt_of_not_le fits⟩⟩
  · rw [if_neg whole]
    exact ⟨_, .inr ⟨.inl ⟨rfl, whole, rfl⟩, rfl⟩⟩

theorem Holds.read (held : Holds c taken k order) : Holds (c.read f) taken k order :=
  { held with
    listed := held.listed.read
    ordered := fun ooo small => { held.ordered ooo small with } }

theorem Holds.firstFragment (held : Holds c taken k order) (member : f ∈ taken) :
    Holds (firstFragment c f) taken k order := by
  have listed := held.listed.firstFragment (f := f)
  unfold IprFragments.firstFragment at *
  by_cases first : f.offset = 0
  · rw [if_pos first] at *
    exact { held with
      listed := listed
      arrived := fun _ => ⟨f, member, first⟩
      ordered := fun ooo small => { held.ordered ooo small with } }
  · rw [if_neg first]
    exact held

theorem prefixAndList (holds : Holds c taken k order) :
    (List.range k ++ order).Perm (List.range taken.length) := by
  have below := holds.listed.below
  have joined := List.range'_append_1 (s := 0) (m := k) (n := taken.length - k)
  rw [Nat.zero_add, Nat.add_sub_cancel' below] at joined
  rw [List.range_eq_range', List.range_eq_range', ← joined]
  exact holds.listed.places.append_left _

theorem Held.read (held : Held c taken k order) : Held (c.read f) taken k order :=
  { held with toHolds := held.toHolds.read }

theorem firstFragmentNext (c : Context) (f : Fragment) :
    (firstFragment c f).rfdc.nextIndex = c.rfdc.nextIndex := by
  unfold firstFragment
  split <;> rfl

theorem Held.firstFragment (held : Held c taken k order) (member : f ∈ taken) :
    Held (firstFragment c f) taken k order :=
  { held with
    toHolds := held.toHolds.firstFragment member
    free := (firstFragmentNext c f).trans held.free }

theorem Holds.nothing (held : Holds c [] k order) : c.rfdc.currentTotalLength = 0 := held.total

variable (inst) in
theorem Held.continue (held : Held c taken k order) (prefixOnly : c.rfdc.outOfOrder = false)
    (next : f.offset = c.rfdc.currentTotalLength) (room : taken.length < maxNumOfFrags)
    (stored : (inOrder inst c f).2 ≠ .malfMaxReassFrmSz) :
    Holds (inOrder inst c f).1 (taken ++ [f]) (taken.length + 1) [] ∧
      ((inOrder inst c f).2 = .fragOkReassNotCompl →
        (inOrder inst c f).1.rfdc.nextIndex = taken.length + 1) := by
  have narrow : taken.length < 64 := room
  have wrapped : wrap 8 (taken.length + 1) = taken.length + 1 := wrapSmall (by omega)
  obtain ⟨slot, ⟨bad, -⟩ | ⟨status, shape⟩⟩ := inOrderCases inst c f
  · exact absurd bad stored
  obtain ⟨all, -⟩ := held.listed.inOrder prefixOnly
  rw [shape]
  refine ⟨?_, fun ok => ?_⟩
  · constructor
    case listed =>
      have listed : Listed { c with
          rfdc := { c.rfdc with
            currentTotalLength := wrap 16 (c.rfdc.currentTotalLength + f.size)
            numOfFrags := wrap 8 (c.rfdc.numOfFrags + 1)
            nextIndex := slot }
          fds := (c.rfdc.nextIndex, f.storedFd) :: c.fds }
          (taken.length + 1) (taken.length + 1) [] :=
        held.listed.continue prefixOnly room ⟨prefixOnly, rfl, rfl, rfl⟩
          (by rw [held.listed.counted, wrapped])
      simpa using listed
    case valid => exact held.valid
    case stored => rw [held.free, held.stored, storesSnoc]
    case spans => simp
    case begun =>
      intro _
      cases taken with
      | nil => exact ⟨f, rfl, next.trans held.nothing⟩
      | cons g taken => exact held.begun (by simp [all])
    case arrived =>
      intro arrived
      obtain ⟨g, member, first⟩ := held.arrived arrived
      exact ⟨g, List.mem_append_left _ member, first⟩
    case total =>
      simp only [held.total, wrapAdd]
      simp [Fragment.span]
    case ordered =>
      intro ooo
      exact absurd (ooo.symm.trans prefixOnly) (by decide)
  · rcases status with ⟨-, -, rfl⟩ | ⟨last, -⟩
    · simp only [held.free, wrapped]
    · exact absurd (ok.symm.trans last) (by decide)

theorem Held.open (held : Held c taken k order) (prefixOnly : c.rfdc.outOfOrder = false)
    (beyond : c.rfdc.currentTotalLength < f.offset) (room : taken.length < maxNumOfFrags)
    (ends : c.rfdc.nextIndex = 0 → f.offset + f.size < maxIpSize) :
    Held (newOutOfOrder c f).1 (taken ++ [f]) taken.length [taken.length] := by
  have narrow : taken.length < 64 := room
  have wrapped : wrap 8 (taken.length + 1) = taken.length + 1 := wrapSmall (by omega)
  obtain ⟨all, plain, -, total⟩ := held.listed.inOrder prefixOnly
  have own : spanAt (newOutOfOrder c f).1.links taken.length = f.span := by
    simp [newOutOfOrder, Context.storeFd, held.free, spanAt, Fragment.span]
  constructor
  case free => simp [newOutOfOrder, Context.storeFd, held.free, wrapped]
  constructor
  case listed => simpa using held.listed.open prefixOnly held.free room
  case valid => simp [newOutOfOrder, Context.storeFd, held.valid, apply_ite Rfdc.valid]
  case stored => simp [newOutOfOrder, Context.storeFd, held.free, held.stored, storesSnoc]
  case spans =>
    intro i here
    have here : i = taken.length := by simpa using here
    simp [here, own]
  case begun =>
    intro more
    obtain ⟨g, head, first⟩ := held.begun (all ▸ more)
    exact ⟨g, by rw [List.getElem?_append_left more, head], first⟩
  case arrived =>
    intro arrived
    obtain ⟨g, member, first⟩ := held.arrived
      (by simpa [newOutOfOrder, Context.storeFd, apply_ite Rfdc.firstArrived] using arrived)
    exact ⟨g, List.mem_append_left _ member, first⟩
  case total =>
    simp only [newOutOfOrder, Context.storeFd, apply_ite Rfdc.currentTotalLength, ite_self,
      held.total, wrapAdd]
    simp [Fragment.span]
  case ordered =>
    intro ooo small
    have stops : f.offset + f.size < maxIpSize := by
      rcases small with alone | all
      · refine ends ?_
        by_contra more
        simp [newOutOfOrder, Context.storeFd, more] at alone
      · exact all f (by simp)
    refine ⟨List.isChain_singleton _, ?_, ?_, ?_⟩
    · intro a here
      rw [List.mem_singleton.mp here, own]
      by_cases empty : c.rfdc.nextIndex = 0
      · simp [newOutOfOrder, Context.storeFd, empty, total]
      · simp [newOutOfOrder, Context.storeFd, empty, Fragment.span, beyond.le]
    · intro a here
      rw [List.mem_singleton.mp here, own]
      exact stops
    · intro a here
      have here : taken.length = a := by simpa using here
      rw [← here, own]
      have narrow : wrap 16 (f.offset + f.size) = f.offset + f.size := wrapSmall stops
      simp [newOutOfOrder, Context.storeFd, narrow, Fragment.span, Span.stop]

theorem Held.insert {l r : List Nat} {c' : Context} (held : Held c taken k order)
    (ooo : c.rfdc.outOfOrder = true) (room : taken.length < maxNumOfFrags)
    (ends : c.rfdc.orderAndOoo = false → f.offset + f.size < maxIpSize)
    (result : Insertion c f order l r c') (fits : (placed inst c' f).2 ≠ .malfMaxReassFrmSz) :
    Holds (placed inst c' f).1 (taken ++ [f]) k (l ++ taken.length :: r) ∧
      ((placed inst c' f).2 = .fragOkReassNotCompl →
        (placed inst c' f).1.rfdc.nextIndex = taken.length + 1) := by
  have narrow : taken.length < 64 := room
  have wrapped : wrap 8 (taken.length + 1) = taken.length + 1 := wrapSmall (by omega)
  have fresh : c.rfdc.nextIndex ∉ order := fun inside => by
    have := (held.listed.mem.mp inside).2
    have := held.free
    omega
  have same : c'.rfdc.nextIndex = taken.length := by rw [result.rfdc, ← held.free]
  have listed := held.listed.insert inst ooo held.free room result
  obtain ⟨slot, ⟨bad, -⟩ | ⟨status, shape⟩⟩ := placedCases inst c' f
  · exact absurd bad fits
  refine ⟨?_, fun ok => ?_⟩
  · constructor
    case listed => simpa using listed
    case valid =>
      rw [shape, result.rfdc]
      exact held.valid
    case stored =>
      rw [shape]
      simp only [same, result.fds, held.stored, storesSnoc]
    case spans =>
      intro i inside
      rw [shape]
      by_cases here : i = taken.length
      · have own := result.own
        rw [held.free] at own
        simp [here, own, Fragment.span]
      · have old : i ∈ order := by
          rw [result.split]
          simpa [here] using inside
        have before := (held.listed.mem.mp old).2
        rw [List.getElem?_append_left before, held.spans i old,
          result.others i (by rw [held.free]; exact here)]
    case begun =>
      intro more
      obtain ⟨g, head, first⟩ := held.begun more
      have before : 0 < taken.length := more.trans_le held.listed.below
      exact ⟨g, by rw [List.getElem?_append_left before, head], first⟩
    case arrived =>
      rw [shape, result.rfdc]
      intro arrived
      obtain ⟨g, member, first⟩ := held.arrived arrived
      exact ⟨g, List.mem_append_left _ member, first⟩
    case total =>
      rw [shape, result.rfdc]
      simp only [held.total, wrapAdd]
      simp [Fragment.span]
    case ordered =>
      intro _ small
      rw [shape, result.rfdc] at small
      rw [← held.free]
      rcases small with alone | all
      · exact (held.ordered ooo (.inl alone)).insert fresh result (ends alone)
      · refine (held.ordered ooo (.inr fun g member => ?_)).insert fresh result (all f (by simp))
        exact all g (List.mem_append_left _ member)
  · rw [shape]
    rcases status with ⟨-, -, rfl⟩ | ⟨last, -⟩
    · simp only [same, wrapped]
    · exact absurd (ok.symm.trans last) (by decide)

end

theorem heldOpened (hdrLength iphdrOffset fraghdrOffset : Nat) (links : LinkList) :
    Held (iprMissHandling hdrLength iphdrOffset fraghdrOffset links) [] 0 [] := by
  have listed : Listed (iprMissHandling hdrLength iphdrOffset fraghdrOffset links) 0 0 [] := by
    refine ⟨by decide, rfl, le_rfl, .rfl, List.isChain_nil, ?_, ?_, fun _ => ⟨rfl, rfl, rfl, rfl⟩,
      ?_, ?_, ?_⟩ <;> simp [iprMissHandling]
  refine ⟨⟨listed, rfl, rfl, ?_, ?_, ?_, rfl, ?_⟩, rfl⟩ <;> simp [iprMissHandling]

end Flexbuild.IprFragments
