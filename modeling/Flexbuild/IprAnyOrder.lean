import Flexbuild.IprProgress

/-! A datagram cut into fragments that arrive in any order. No fragment is refused, only the last
to arrive closes the context, and the frames are then concatenated in the order of their bytes. -/
namespace Flexbuild.IprFragments
open Words Links Tilings

structure Cut (inst : Instance) (payload : List UInt8) (parts : List Fragment) : Prop where
  two : 2 ≤ parts.length
  few : parts.length ≤ maxNumOfFrags
  nonempty : ∀ f ∈ parts, 0 < f.size
  tiles : Tiles 0 (parts.map Fragment.span) payload.length
  last : ∀ f ∈ parts, f.last = true ↔ f.span.stop = payload.length
  ecn : ∀ f ∈ parts, ∀ g ∈ parts, f.ecn = g.ecn
  header : ∀ f ∈ parts, f.ipOffset + f.ipHeaderSize < 256
  frame : ∀ f ∈ parts, ∃ headers, headers.length = f.ipOffset + f.ipHeaderSize ∧
    f.checkRemovePadding = headers ++ (payload.drop f.offset).take f.size
  short : ∀ f ∈ parts, f.offset = 0 → payload.length + f.firstFragHdrLength < maxIpSize
  fits : ∀ f ∈ parts, f.offset = 0 →
    payload.length + f.firstFragHdrLength ≤ inst.maxReassFrmSize

def feed (inst : Instance) : Context → List Fragment → Option (Context × List FragStatus)
  | c, [] => some (c, [])
  | c, f :: fs =>
      match iprInsertToLinkList inst c f with
      | none => none
      | some (c, status) => (feed inst c fs).map fun (c, statuses) => (c, status :: statuses)

def closing (c : Context) (status : FragStatus) : List Piece :=
  match status with
  | .lastFragInOrder => closingInOrder c c.rfdc.numOfFrags
  | _ => closingWithReordering c

def Piece.bytes (p : Piece) : List UInt8 := ((p.fd.map Fd.frame).getD []).drop p.trim

def Fragment.removed (f : Fragment) : Nat := if f.offset = 0 then 0 else f.ipOffset + f.ipHeaderSize

structure Reassembled (c : Context) (pieces : List Piece) (payload : List UInt8)
    (parts : List Fragment) : Prop where
  once : (pieces.map fun p => (p.slot, p.fd)).Perm (c.fds.map fun entry => (entry.1, some entry.2))
  inOrder : pieces.map (fun p => (p.fd, p.trim)) =
    parts.map fun f => (some f.storedFd, f.removed)
  assembled : ∀ f ∈ parts.head?, pieces.flatMap Piece.bytes =
    f.checkRemovePadding.take (f.ipOffset + f.ipHeaderSize) ++ payload
  total : c.rfdc.currentTotalLength = payload.length

section
variable {inst : Instance} {c : Context} {f : Fragment} {k : Nat} {order : List Nat}
  {taken : List Fragment} {payload : List UInt8} {parts : List Fragment}

def SameReading (c c' : Context) : Prop :=
  c'.rfdc.firstFragHdrLength = c.rfdc.firstFragHdrLength ∧
    c'.rfdc.statusNotEct = c.rfdc.statusNotEct ∧ c'.rfdc.statusCe = c.rfdc.statusCe

theorem firstFragmentReading {d : Context} (same : SameReading c d) :
    SameReading c (firstFragment d f) := by
  unfold firstFragment
  split
  · exact same
  · exact same

theorem arrivalReading {result : Context × FragStatus} (arrival : Arrival inst c f order result)
    (good : result.2.malformed = false) : SameReading (c.read f) result.1 := by
  cases arrival with
  | ecn conflict => simp [FragStatus.malformed] at good
  | duplicate clear prefixOnly behind => simp [FragStatus.malformed] at good
  | continued clear prefixOnly next =>
    refine firstFragmentReading ?_
    simp only [inOrder]
    split
    · split <;> exact ⟨rfl, rfl, rfl⟩
    · exact ⟨rfl, rfl, rfl⟩
  | gap clear prefixOnly beyond =>
    refine firstFragmentReading ?_
    by_cases empty : c.rfdc.nextIndex = 0 <;>
      simp [newOutOfOrder, SameReading, Context.storeFd, Context.read, empty]
  | refused clear ooo why => exact absurd (good.symm.trans (refusalMalformed why)) (by decide)
  | @inserted l r c' clear ooo result =>
    have same : SameReading (c.read f) (placed inst c' f).1 := by
      obtain ⟨next, fds, shape⟩ := placedShape inst c' f
      rw [shape, SameReading, result.rfdc]
      exact ⟨rfl, rfl, rfl⟩
    unfold settle
    split
    · exact same
    · exact firstFragmentReading same

theorem Cut.proper (cut : Cut inst payload parts) (member : f ∈ parts) : f.Proper := by
  have inside := (tilesInside cut.tiles f.span (List.mem_map_of_mem member)).2
  obtain ⟨g, rest, rfl⟩ := List.exists_cons_of_ne_nil
    (List.ne_nil_of_length_pos (Nat.zero_lt_of_lt cut.two))
  have short := cut.short g List.mem_cons_self cut.tiles.1
  refine ⟨cut.nonempty f member, ?_⟩
  simp only [Fragment.span, Span.stop] at inside
  omega

structure Partway (parts : List Fragment) (c : Context) (taken : List Fragment) : Prop where
  sound : ∃ k order, Sound c taken k order
  free : c.rfdc.nextIndex = taken.length
  header : ∀ g ∈ taken, g.offset = 0 → c.rfdc.firstFragHdrLength = g.firstFragHdrLength
  congested : c.rfdc.statusCe = true → ∀ g ∈ parts, g.ecn = ce
  uncongested : c.rfdc.statusNotEct = true → ∀ g ∈ parts, g.ecn = notEct

theorem Partway.noConflict (partway : Partway parts c taken) (member : f ∈ parts) :
    ¬ EcnConflict c f := by
  rintro (⟨own, other⟩ | ⟨own, other⟩)
  · exact absurd (own.symm.trans (partway.congested other f member)) (by decide)
  · exact absurd (own.symm.trans (partway.uncongested other f member)) (by decide)

theorem Partway.step {c' : Context} (partway : Partway parts c taken) (member : f ∈ parts)
    (same : ∀ g ∈ parts, ∀ g' ∈ parts, g.ecn = g'.ecn) (reading : SameReading (c.read f) c')
    (sound : ∃ k order, Sound c' (taken ++ [f]) k order)
    (free : c'.rfdc.nextIndex = taken.length + 1)
    (first : f.offset = 0 → ∀ g ∈ taken, g.offset ≠ 0) : Partway parts c' (taken ++ [f]) := by
  obtain ⟨length, uncongested, congested⟩ := reading
  refine ⟨sound, by simpa using free, fun g inside start => ?_, fun flag g inside => ?_,
    fun flag g inside => ?_⟩
  · rw [length]
    by_cases own : f.offset = 0
    · have here : g = f := by
        rcases List.mem_append.mp inside with old | new
        · exact absurd start (first own g old)
        · exact List.mem_singleton.mp new
      simp [Context.read, own, here]
    · have old : g ∈ taken := by
        rcases List.mem_append.mp inside with old | new
        · exact old
        · exact absurd ((List.mem_singleton.mp new) ▸ start) own
      simp [Context.read, own, partway.header g old start]
  · rw [congested] at flag
    simp only [Context.read, Bool.or_eq_true, beq_iff_eq] at flag
    rcases flag with old | own
    · exact partway.congested old g inside
    · exact (same g inside f member).trans own
  · rw [uncongested] at flag
    simp only [Context.read, Bool.or_eq_true, beq_iff_eq] at flag
    rcases flag with old | own
    · exact partway.uncongested old g inside
    · exact (same g inside f member).trans own

structure Closed (c : Context) (taken : List Fragment) (status : FragStatus) (slots : List Nat) :
    Prop where
  whole : Whole c taken slots
  stored : c.fds = stores taken
  pieces : closing c status = c.pieces slots

theorem Cut.apart (cut : Cut inst payload parts) : (parts.map Fragment.span).Pairwise Apart :=
  sortedPairwise (tilesSorted cut.tiles)

variable {post : List Fragment}

theorem Cut.notBlocked (cut : Cut inst payload parts)
    (arrivals : (taken ++ f :: post).Perm parts) (partway : Partway parts c taken) :
    ¬ Blocked c f taken := by
  have member (g : Fragment) (inside : g ∈ taken ++ f :: post) : g ∈ parts :=
    arrivals.mem_iff.mp inside
  have self : f ∈ parts := member f (by simp)
  have old (g : Fragment) (inside : g ∈ taken) : g ∈ parts :=
    member g (List.mem_append_left _ inside)
  have apart (g : Fragment) (inside : g ∈ taken) : Apart g.span f.span := by
    have all := ((arrivals.map Fragment.span).pairwise_iff apartComm).mpr cut.apart
    rw [List.map_append] at all
    exact (List.pairwise_append.mp all).2.2 _ (List.mem_map_of_mem inside) _ (by simp)
  have positive := cut.nonempty f self
  have ends := (tilesInside cut.tiles f.span (List.mem_map_of_mem self)).2
  rintro (conflict | ⟨inside, overlaps⟩ | ⟨inside, last, beyond⟩ | ⟨inside, last, before⟩)
  · exact partway.noConflict self conflict
  · exact overlaps (apart _ inside)
  · rename_i g
    have stop := (cut.last g (old g inside)).mp last
    simp only [Fragment.span, Span.stop] at *
    omega
  · rename_i g
    have stop := (cut.last f self).mp last
    have clear := apart g inside
    have inner := (tilesInside cut.tiles g.span (List.mem_map_of_mem (old g inside))).2
    have some := cut.nonempty g (old g inside)
    simp only [Apart, Before, Fragment.span, Span.stop] at *
    omega

theorem Cut.sizeSplit (cut : Cut inst payload parts) (arrivals : (taken ++ f :: post).Perm parts) :
    size ((taken ++ [f]).map Fragment.span) + size (post.map Fragment.span) = payload.length := by
  have total := tilesSize cut.tiles
  rw [← sizePerm (arrivals.map Fragment.span)] at total
  simp only [List.map_append, List.map_cons, sizeAppend, sizeCons, List.map_nil, sizeNil] at *
  omega

theorem Cut.sizePositive (cut : Cut inst payload parts)
    (arrivals : (taken ++ f :: post).Perm parts) (more : post ≠ []) :
    0 < size (post.map Fragment.span) := by
  obtain ⟨g, rest, rfl⟩ := List.exists_cons_of_ne_nil more
  have positive := cut.nonempty g (arrivals.mem_iff.mp (by simp))
  simp only [List.map_cons, sizeCons, Fragment.span]
  omega

theorem Cut.hasLast (cut : Cut inst payload parts) : ∃ g ∈ parts, g.last = true := by
  obtain ⟨front, g, rfl⟩ := (List.eq_nil_or_concat' parts).resolve_left
    (List.ne_nil_of_length_pos (Nat.zero_lt_of_lt cut.two))
  obtain ⟨middle, -, tiles⟩ := tilesAppend.mp (List.map_append ▸ cut.tiles)
  exact ⟨g, by simp, (cut.last g (by simp)).mpr tiles.2⟩

theorem Cut.hasFirst (cut : Cut inst payload parts) : ∃ g ∈ parts, g.offset = 0 := by
  obtain ⟨g, rest, rfl⟩ := List.exists_cons_of_ne_nil
    (List.ne_nil_of_length_pos (Nat.zero_lt_of_lt cut.two))
  exact ⟨g, List.mem_cons_self, cut.tiles.1⟩

theorem Cut.mustClose (cut : Cut inst payload parts) (arrivals : taken.Perm parts)
    (sound : Sound c taken k order)
    (unfinished : c.rfdc.outOfOrder = true →
      c.rfdc.currentTotalLength ≠ c.rfdc.expectedTotalLength) : False := by
  obtain ⟨g, member, last⟩ := cut.hasLast
  have known : c.rfdc.expectedTotalLength ≠ 0 := fun unseen =>
    absurd ((sound.unseen unseen g (arrivals.mem_iff.mpr member)).symm.trans last) (by decide)
  cases ooo : c.rfdc.outOfOrder with
  | false => exact known (sound.quiet ooo).2
  | true =>
    obtain ⟨-, h, inside, final, stops⟩ := sound.seen known
    have total := tilesSize cut.tiles
    rw [← sizePerm (arrivals.map Fragment.span), ← sound.totalExact, Nat.zero_add] at total
    have stop := (cut.last h (arrivals.mem_iff.mp inside)).mp final
    exact unfinished ooo (by omega)

theorem Cut.fitsNow (cut : Cut inst payload parts) (arrivals : (taken ++ [f]).Perm parts)
    (partway : Partway parts c taken) :
    payload.length + (c.read f).rfdc.firstFragHdrLength ≤ inst.maxReassFrmSize := by
  by_cases own : f.offset = 0
  · have self : f ∈ parts := arrivals.mem_iff.mp (by simp)
    simpa [Context.read, own] using cut.fits f self own
  · obtain ⟨g, member, start⟩ := cut.hasFirst
    have old : g ∈ taken := by
      rcases List.mem_append.mp (arrivals.mem_iff.mpr member) with old | new
      · exact old
      · exact absurd ((List.mem_singleton.mp new) ▸ start) own
    simpa [Context.read, own, partway.header g old start] using cut.fits g member start

theorem Cut.arrive (cut : Cut inst payload parts)
    (arrivals : (taken ++ f :: post).Perm parts) (partway : Partway parts c taken) :
    ∃ c' s, iprInsertToLinkList inst c f = some (c', s) ∧
      (post ≠ [] → s = .fragOkReassNotCompl ∧ Partway parts c' (taken ++ [f])) ∧
      (post = [] → s.isLast = true ∧ ∃ slots, Closed c' (taken ++ [f]) s slots) := by
  obtain ⟨k, order, sound⟩ := partway.sound
  have free := partway.free
  have self : f ∈ parts := arrivals.mem_iff.mp (by simp)
  have length := arrivals.length_eq
  simp only [List.length_append, List.length_cons] at length
  have room : taken.length < maxNumOfFrags := by
    have few := cut.few
    omega
  have proper := cut.proper self
  have split := cut.sizeSplit arrivals
  have whole (g : Fragment) (inside : g ∈ taken ++ [f]) (last : g.last = true)
      (stops : g.span.stop = size ((taken ++ [f]).map Fragment.span)) : post = [] := by
    by_contra more
    have positive := cut.sizePositive arrivals more
    have stop := (cut.last g (arrivals.mem_iff.mp (by
      rcases List.mem_append.mp inside with old | new
      · simp [old]
      · simp [List.mem_singleton.mp new]))).mp last
    omega
  obtain ⟨⟨c', s⟩, answer, arrival, progress⟩ := arrivalProgress inst sound free room proper
  refine ⟨c', s, answer, ?_⟩
  cases progress with
  | refused bad notSize why => exact absurd why (cut.notBlocked arrivals partway)
  | taken clear sound' free' unfinished =>
    refine ⟨fun more => ⟨rfl, ?_⟩, fun none => ?_⟩
    · refine partway.step self cut.ecn (arrivalReading arrival rfl) ⟨_, _, sound'⟩ free' ?_
      intro own g inside start
      exact cut.notBlocked arrivals partway (.overlap inside (notApart
        (by simpa [Fragment.span, Span.stop, own, start] using proper.1)
        (by simpa [Fragment.span, Span.stop, own, start] using (sound.proper g inside).1)))
    · exact (cut.mustClose (none ▸ arrivals) sound' unfinished).elim
  | inOrder holds whole' =>
    have total := tilesSize whole'.tiles
    rw [Nat.zero_add, sizePerm whole'.perm] at total
    obtain ⟨g, member, last, stops⟩ := whole'.last
    have none := whole g member last (stops.trans total.symm)
    refine ⟨fun more => absurd none more, fun _ => ⟨rfl, _, whole', holds.stored, ?_⟩⟩
    have counted := holds.listed.counted
    simp only [List.length_append, List.length_singleton] at counted
    have two := cut.two
    subst none
    rw [closing, counted]
    exact closingInOrderPieces (by simp at length; omega) room
  | outOfOrder ooo sound' whole' =>
    obtain ⟨g, member, last, stops⟩ := whole'.last
    have none := whole g member last (stops.trans sound'.totalExact)
    refine ⟨fun more => absurd none more, fun _ => ⟨rfl, _, whole', sound'.stored, ?_⟩⟩
    have two := cut.two
    subst none
    exact closingPieces sound'.listed (by simp at length ⊢; omega) ooo
  | tooLarge member last stops large =>
    have none := whole _ member last stops
    subst none
    have fits := cut.fitsNow arrivals partway
    simp only [List.map_nil, sizeNil, Nat.add_zero] at split
    omega

theorem Cut.feedAll (cut : Cut inst payload parts) (more : post ≠ [])
    (arrivals : (taken ++ post).Perm parts) (partway : Partway parts c taken) :
    ∃ c' s slots, feed inst c post =
        some (c', List.replicate (post.length - 1) .fragOkReassNotCompl ++ [s]) ∧
      s.isLast = true ∧ Closed c' (taken ++ post) s slots := by
  induction post generalizing c taken with
  | nil => exact absurd rfl more
  | cons f post ih =>
    obtain ⟨c', s, answer, goesOn, ends⟩ := cut.arrive arrivals partway
    by_cases none : post = []
    · subst none
      obtain ⟨last, slots, closed⟩ := ends rfl
      exact ⟨c', s, slots, by simp [feed, answer], last, closed⟩
    · obtain ⟨rfl, partway'⟩ := goesOn none
      have arrivals' : ((taken ++ [f]) ++ post).Perm parts := by simpa using arrivals
      obtain ⟨d, s, slots, fed, last, closed⟩ := ih none arrivals' partway'
      refine ⟨d, s, slots, ?_, last, by simpa using closed⟩
      have positive := List.length_pos_of_ne_nil none
      have count : post.length = post.length - 1 + 1 := by omega
      rw [feed, answer]
      simp only [fed, Option.map_some, List.length_cons, Nat.add_sub_cancel]
      rw [count, List.replicate_succ, Nat.add_sub_cancel]
      rfl

variable {slots : List Nat}

theorem Cut.sameParts (cut : Cut inst payload parts) (arrivals : taken.Perm parts) (whole : Whole c taken slots) :
    slots.filterMap (taken[·]?) = parts := by
  have perm : (slots.filterMap (taken[·]?)).Perm parts := by
    have inTurn := rangeFilterMap taken (le_refl taken.length)
    rw [List.take_length] at inTurn
    exact (whole.all.filterMap _).trans ((List.Perm.of_eq inTurn).trans arrivals)
  have increasing (l : List Fragment) (sorted : (l.map Fragment.span).IsChain Before)
      (inside : ∀ g ∈ l, g ∈ parts) : l.Pairwise fun a b => a.offset < b.offset := by
    refine (List.pairwise_map.mp (List.isChain_iff_pairwise.mp sorted)).imp_of_mem ?_
    intro a b member _ before
    have positive := cut.nonempty a (inside a member)
    simp only [Before, Fragment.span, Span.stop] at before
    omega
  refine perm.eq_of_pairwise (fun a b _ _ before after => ?_)
    (increasing _ (tilesSorted whole.tiles) fun g member => perm.mem_iff.mp member)
    (increasing _ (tilesSorted cut.tiles) fun g member => member)
  exact absurd after (Nat.lt_asymm before)

theorem mapSlots {α : Type*} (F : Nat → α) (G : Fragment → α)
    (inside : ∀ i ∈ slots, ∃ g, taken[i]? = some g ∧ F i = G g) :
    slots.map F = (slots.filterMap (taken[·]?)).map G := by
  induction slots with
  | nil => rfl
  | cons i slots ih =>
    obtain ⟨g, here, same⟩ := inside i List.mem_cons_self
    have rest := ih fun j member => inside j (List.mem_cons_of_mem _ member)
    simp [here, same, rest]

theorem Cut.trimmed (cut : Cut inst payload parts) (member : f ∈ parts) (later : f.offset ≠ 0) :
    wrap 8 f.storedFd.frc = f.removed := by
  have small := cut.header f member
  have wide : wrap 32 (f.ipOffset + f.ipHeaderSize) = f.ipOffset + f.ipHeaderSize :=
    wrapSmall (by omega)
  simp only [Fragment.storedFd, Fragment.removed, if_pos later, if_neg later, wide]
  exact wrapSmall small

theorem Cut.concatenatedInOrder (cut : Cut inst payload parts) {s : FragStatus}
    (arrivals : taken.Perm parts) (closed : Closed c taken s slots) :
    (closing c s).map (fun p => (p.fd, p.trim)) =
      parts.map fun f => (some f.storedFd, f.removed) := by
  have same := cut.sameParts arrivals closed.whole
  have fdAt := fdAtStored closed.stored
  have slotInside (i : Nat) (member : i ∈ slots) : i < taken.length :=
    List.mem_range.mp (closed.whole.all.mem_iff.mp member)
  rw [closed.pieces]
  cases slots with
  | nil =>
    rw [← same]
    rfl
  | cons i slots =>
    have first := slotInside i List.mem_cons_self
    have parts' : taken[i] :: slots.filterMap (taken[·]?) = parts := by
      rw [← same]
      simp [List.getElem?_eq_getElem first]
    have start : taken[i].offset = 0 := by
      have tiles := cut.tiles
      rw [← parts'] at tiles
      exact tiles.1
    have later (g : Fragment) (member : g ∈ slots.filterMap (taken[·]?)) : g.offset ≠ 0 := by
      have tiles := cut.tiles
      rw [← parts', List.map_cons] at tiles
      have after := (tilesInside tiles.2 g.span (List.mem_map_of_mem member)).1
      have positive := cut.nonempty taken[i] (parts' ▸ List.mem_cons_self)
      simp only [Fragment.span, Span.stop] at after
      omega
    have rest : slots.map (fun i => ((c.concatenated i).fd, (c.concatenated i).trim)) =
        (slots.filterMap (taken[·]?)).map (fun f => (some f.storedFd, f.removed)) :=
      mapSlots _ _ fun j member => by
        have inside := slotInside j (List.mem_cons_of_mem _ member)
        have listed : taken[j] ∈ slots.filterMap (taken[·]?) :=
          List.mem_filterMap.mpr ⟨j, member, List.getElem?_eq_getElem inside⟩
        have trimmed := cut.trimmed (f := taken[j]) (parts' ▸ List.mem_cons_of_mem _ listed)
          (later _ listed)
        refine ⟨taken[j], List.getElem?_eq_getElem inside, ?_⟩
        simp [Context.concatenated, fdAt, inside, trimmed]
    rw [← parts', Context.pieces, List.map_cons, List.map_cons, List.map_map, ← rest]
    simp [Context.presented, fdAt, first, Fragment.removed, start]

theorem Cut.partBytes (cut : Cut inst payload parts) (member : f ∈ parts) :
    f.storedFd.frame.drop f.removed =
      (if f.offset = 0 then f.checkRemovePadding.take (f.ipOffset + f.ipHeaderSize) else []) ++
        (payload.drop f.span.offset).take f.span.size := by
  obtain ⟨headers, length, frame⟩ := cut.frame f member
  simp only [Fragment.storedFd, Fragment.removed, frame, Fragment.span, ← length]
  by_cases first : f.offset = 0
  · simp [first]
  · simp [first]

theorem Cut.assemble (cut : Cut inst payload parts) {pieces : List Piece}
    (inOrder : pieces.map (fun p => (p.fd, p.trim)) =
      parts.map fun f => (some f.storedFd, f.removed)) :
    ∀ f ∈ parts.head?, pieces.flatMap Piece.bytes =
      f.checkRemovePadding.take (f.ipOffset + f.ipHeaderSize) ++ payload := by
  intro f head
  obtain ⟨rest, rfl⟩ := List.head?_eq_some_iff.mp head
  have start : f.offset = 0 := cut.tiles.1
  have later (g : Fragment) (member : g ∈ rest) : g.offset ≠ 0 := by
    have after := (tilesInside cut.tiles.2 g.span (List.mem_map_of_mem member)).1
    have positive := cut.nonempty f List.mem_cons_self
    simp only [Fragment.span, Span.stop] at after
    omega
  have slices : rest.flatMap (fun g => g.storedFd.frame.drop g.removed) =
      (rest.map Fragment.span).flatMap fun a => (payload.drop a.offset).take a.size := by
    rw [List.flatMap_map]
    refine List.flatMap_congr fun g member => ?_
    rw [cut.partBytes (List.mem_cons_of_mem _ member), if_neg (later g member), List.nil_append]
  have whole := tilesAssemble cut.tiles payload
  rw [List.map_cons, List.flatMap_cons] at whole
  calc pieces.flatMap Piece.bytes
      = (pieces.map fun p => (p.fd, p.trim)).flatMap
          fun q => ((q.1.map Fd.frame).getD []).drop q.2 := by rw [List.flatMap_map]; rfl
    _ = (f :: rest).flatMap fun g => g.storedFd.frame.drop g.removed := by
        rw [inOrder, List.flatMap_map]
        rfl
    _ = f.checkRemovePadding.take (f.ipOffset + f.ipHeaderSize) ++ payload := by
        rw [List.flatMap_cons, cut.partBytes List.mem_cons_self, if_pos start, slices,
          List.append_assoc, whole]
        simp

end

theorem sameDatagramAnyOrder (inst : Instance) (hdrLength iphdrOffset fraghdrOffset : Nat)
    (links : LinkList) (payload : List UInt8) (parts arrivals : List Fragment)
    (cut : Cut inst payload parts) (permutation : arrivals.Perm parts) :
    ∃ c s, feed inst (iprMissHandling hdrLength iphdrOffset fraghdrOffset links) arrivals =
        some (c, List.replicate (arrivals.length - 1) .fragOkReassNotCompl ++ [s]) ∧
      s.isLast = true ∧ Reassembled c (closing c s) payload parts := by
  have opened : Partway parts (iprMissHandling hdrLength iphdrOffset fraghdrOffset links) [] :=
    { sound := ⟨0, [], soundOpened hdrLength iphdrOffset fraghdrOffset links⟩
      free := rfl
      header := by simp
      congested := by simp [iprMissHandling]
      uncongested := by simp [iprMissHandling] }
  have more : arrivals ≠ [] := by
    rintro rfl
    have none := permutation.length_eq
    have two := cut.two
    simp only [List.length_nil] at none
    omega
  have arrived : ([] ++ arrivals).Perm parts := permutation
  obtain ⟨c, s, slots, fed, last, closed⟩ := cut.feedAll more arrived opened
  rw [List.nil_append] at closed
  have inOrder := cut.concatenatedInOrder permutation closed
  refine ⟨c, s, fed, last, ?_, inOrder, cut.assemble inOrder, ?_⟩
  · rw [closed.pieces, piecesTaken]
    exact (closed.whole.all.map _).trans (takenStores closed.stored)
  · have total := tilesSize closed.whole.tiles
    have length := tilesSize cut.tiles
    rw [cut.sameParts permutation closed.whole] at total
    exact total.symm.trans length

theorem sampleCut : Cut ⟨1500, 0, 0⟩ (List.replicate 128 0)
    [sampleFragment 0x2000, sampleFragment 8] := by
  have frame (flags : Nat) (f : Fragment) (here : f = sampleFragment flags)
      (inside : f.offset + f.size ≤ 128) : ∃ headers : List UInt8,
        headers.length = f.ipOffset + f.ipHeaderSize ∧ f.checkRemovePadding =
          headers ++ ((List.replicate 128 0).drop f.offset).take f.size := by
    subst here
    refine ⟨List.replicate 34 0, rfl, ?_⟩
    have size : (sampleFragment flags).size = 64 := by
      simp only [Fragment.size, Fragment.ipHeaderSize, sampleFragment]
      decide
    have whole : (sampleFragment flags).checkRemovePadding = List.replicate 98 0 := rfl
    rw [size] at inside ⊢
    rw [whole, List.drop_replicate, List.take_replicate, List.replicate_append_replicate]
    congr 1
    omega
  constructor
  case two => decide
  case few => decide
  case tiles => exact ⟨rfl, rfl, List.length_replicate.symm⟩
  case frame =>
    intro f member
    rcases List.mem_cons.mp member with here | member
    · exact frame 0x2000 f here (here ▸ by decide)
    · exact frame 8 f (List.mem_singleton.mp member) (List.mem_singleton.mp member ▸ by decide)
  case nonempty => decide
  case ecn => decide
  case header => decide
  all_goals
    rw [List.length_replicate]
    decide

theorem sameDatagramReversed : ∃ c s,
    feed ⟨1500, 0, 0⟩ sampleContext [sampleFragment 8, sampleFragment 0x2000] =
        some (c, [.fragOkReassNotCompl, s]) ∧
      s.isLast = true ∧ Reassembled c (closing c s) (List.replicate 128 0)
        [sampleFragment 0x2000, sampleFragment 8] :=
  sameDatagramAnyOrder ⟨1500, 0, 0⟩ 0 0 0 default (List.replicate 128 0)
    [sampleFragment 0x2000, sampleFragment 8] [sampleFragment 8, sampleFragment 0x2000]
    sampleCut (.swap _ _ _)

end Flexbuild.IprFragments
