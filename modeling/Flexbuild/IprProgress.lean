import Flexbuild.IprCoverage

/-! What a fragment can do to a sound context. It is refused for a reason that lies in the
fragments taken before, or it is taken and the context stays sound, or it is the last one missing;
then the fragments make up a whole datagram, which may be too large. -/
namespace Flexbuild.IprFragments
open Words Links Tilings

inductive Blocked (c : Context) (f : Fragment) (taken : List Fragment) : Prop where
  | ecn (conflict : EcnConflict c f)
  | overlap {g : Fragment} (member : g ∈ taken) (overlaps : ¬ Apart g.span f.span)
  | pastEnd {g : Fragment} (member : g ∈ taken) (last : g.last = true)
      (beyond : g.span.stop ≤ f.offset)
  | notLast {g : Fragment} (member : g ∈ taken) (last : f.last = true)
      (inside : f.offset < g.span.stop)

inductive Progress (inst : Instance) (c : Context) (f : Fragment) (taken : List Fragment) :
    Context × FragStatus → Prop where
  | refused {c' : Context} {s : FragStatus} {k : Nat} {order : List Nat}
      (bad : s.malformed = true) (notSize : s ≠ .malfMaxReassFrmSz) (why : Blocked c f taken)
      (sound : Sound c' taken k order) (free : c'.rfdc.nextIndex = taken.length)
      (same : c' = c ∨ c' = c.read f) : Progress inst c f taken (c', s)
  | taken {c' : Context} {k : Nat} {order : List Nat} (clear : ¬ EcnConflict c f)
      (sound : Sound c' (taken ++ [f]) k order)
      (free : c'.rfdc.nextIndex = taken.length + 1)
      (unfinished : c'.rfdc.outOfOrder = true →
        c'.rfdc.currentTotalLength ≠ c'.rfdc.expectedTotalLength) :
      Progress inst c f taken (c', .fragOkReassNotCompl)
  | inOrder {c' : Context} (holds : Holds c' (taken ++ [f]) (taken.length + 1) [])
      (whole : Whole c' (taken ++ [f]) (List.range (taken.length + 1))) :
      Progress inst c f taken (c', .lastFragInOrder)
  | outOfOrder {c' : Context} {k : Nat} {order : List Nat}
      (ooo : c'.rfdc.outOfOrder = true) (sound : Sound c' (taken ++ [f]) k order)
      (whole : Whole c' (taken ++ [f]) (List.range k ++ order)) :
      Progress inst c f taken (c', .lastFragOutOfOrder)
  | tooLarge {c' : Context} {g : Fragment} (member : g ∈ taken ++ [f]) (last : g.last = true)
      (whole : g.span.stop = size ((taken ++ [f]).map Fragment.span))
      (large : inst.maxReassFrmSize < g.span.stop + (c.read f).rfdc.firstFragHdrLength) :
      Progress inst c f taken (c', .malfMaxReassFrmSz)

section
variable {inst : Instance} {c : Context} {f : Fragment} {k : Nat} {order : List Nat}
  {taken : List Fragment}

theorem notApart {a b : Span} (left : a.offset < b.stop) (right : b.offset < a.stop) :
    ¬ Apart a b := by
  simp only [Apart, Before]
  omega

theorem Sound.member (sound : Sound c taken k order) {i : Nat} (inside : i ∈ order) :
    ∃ g ∈ taken, g.span = spanAt c.links i := by
  obtain ⟨g, here, span⟩ := Option.map_eq_some_iff.mp (sound.spans i inside)
  exact ⟨g, List.mem_of_getElem? here, span⟩

theorem Sound.prefixCovers (sound : Sound c taken k order) (proper : f.Proper)
    (inside : f.offset < c.inOrderTotal) : Blocked c f taken := by
  obtain ⟨a, member, low, high⟩ := (tilesCover sound.tiles f.offset).mp ⟨Nat.zero_le _, inside⟩
  obtain ⟨g, old, rfl⟩ := List.mem_map.mp member
  have positive := proper.1
  refine .overlap (List.mem_of_mem_take old) (notApart ?_ high)
  simp only [Fragment.span, Span.stop] at *
  omega

theorem Sound.blocked (sound : Sound c taken k order) (ooo : c.rfdc.outOfOrder = true)
    (proper : f.Proper) {s : FragStatus} (why : Refusal c f order s) : Blocked c f taken := by
  have ordered := sound.sorted ooo
  cases why with
  | early inPrefix =>
    refine sound.prefixCovers proper ?_
    rwa [Context.inOrderTotal, if_pos ooo]
  | pastEnd beyond known =>
    obtain ⟨same, g, member, last, stops⟩ := sound.seen known
    exact .pastEnd member last (by rw [stops, same]; exact beyond)
  | lastFrag inside last =>
    obtain ⟨front, i, rfl⟩ := (List.eq_nil_or_concat' order).resolve_left
      (sound.listed.nonempty ooo)
    obtain ⟨g, member, span⟩ := sound.member (i := i) (by simp)
    refine .notLast member last ?_
    rw [span, ← ordered.biggest i (by simp)]
    exact inside
  | @overlap a listed inside reaches covered =>
    obtain ⟨g, member, span⟩ := sound.member listed
    refine .overlap member (notApart ?_ ?_)
    · rw [span]
      exact reaches
    · rw [span]
      rcases covered with covered | last
      · rwa [wrapSmall (w := 16) (ordered.small a listed)] at covered
      · rw [← ordered.biggest a last]
        exact inside

variable (inst) in
theorem Sound.finishInOrder (sound : Sound c taken k order)
    (free : c.rfdc.nextIndex = taken.length) (prefixOnly : c.rfdc.outOfOrder = false)
    (next : f.offset = c.rfdc.currentTotalLength) (room : taken.length < maxNumOfFrags)
    (proper : f.Proper) (last : f.last = true)
    (stored : (inOrder inst c f).2 ≠ .malfMaxReassFrmSz) :
    Holds (inOrder inst c f).1 (taken ++ [f]) (taken.length + 1) [] ∧
      Whole (inOrder inst c f).1 (taken ++ [f]) (List.range (taken.length + 1)) := by
  have held : Held c taken k order := { sound with free := free }
  obtain ⟨holds, -⟩ := held.continue inst prefixOnly next room stored
  obtain ⟨slot, ⟨bad, -⟩ | ⟨-, shape⟩⟩ := inOrderCases inst c f
  · exact absurd bad stored
  have all := (sound.listed.inOrder prefixOnly).1
  have total : (inOrder inst c f).1.rfdc.currentTotalLength = f.span.stop := by
    rw [shape, ← next]
    exact wrapSmall proper.2
  have tiles := sound.tiles
  rw [all, List.take_length, Context.inOrderTotal, if_neg (by simp [prefixOnly])] at tiles
  refine ⟨holds, by simp, ?_, f, by simp, last, total.symm⟩
  have whole := rangeFilterMap (taken ++ [f]) (n := taken.length + 1) (by simp)
  rw [← List.length_singleton (a := f), ← List.length_append, List.take_length,
    List.length_append, List.length_singleton] at whole
  rw [whole, total, List.map_append]
  exact tilesStep tiles next

theorem firstFragmentTotal (c : Context) (f : Fragment) :
    (firstFragment c f).rfdc.currentTotalLength = c.rfdc.currentTotalLength := by
  unfold firstFragment
  split <;> rfl

theorem firstFragmentOoo (c : Context) (f : Fragment) :
    (firstFragment c f).rfdc.outOfOrder = c.rfdc.outOfOrder := by
  unfold firstFragment
  split <;> rfl

theorem firstFragmentExpected (c : Context) (f : Fragment) :
    (firstFragment c f).rfdc.expectedTotalLength = c.rfdc.expectedTotalLength := by
  unfold firstFragment
  split <;> rfl

theorem inOrderStill (c : Context) (f : Fragment) :
    (inOrder inst c f).1.rfdc.outOfOrder = c.rfdc.outOfOrder := by
  simp only [inOrder]
  split
  · split <;> rfl
  · rfl

theorem Whole.firstFragment {slots : List Nat} (whole : Whole c taken slots) :
    Whole (firstFragment c f) taken slots := by
  obtain ⟨all, tiles, last⟩ := whole
  exact ⟨all, by rwa [firstFragmentTotal], by rwa [firstFragmentTotal]⟩

theorem continuedProgress (sound : Sound c taken k order) (free : c.rfdc.nextIndex = taken.length)
    (clear : ¬ EcnConflict c f) (prefixOnly : c.rfdc.outOfOrder = false)
    (next : f.offset = c.rfdc.currentTotalLength) (room : taken.length < maxNumOfFrags)
    (proper : f.Proper) :
    Progress inst c f taken
      (firstFragment (inOrder inst (c.read f) f).1 f, (inOrder inst (c.read f) f).2) := by
  have soundRead : Sound (c.read f) taken k order := sound.read
  obtain ⟨slot, ⟨bad, last, large⟩ | ⟨⟨kept, more, -⟩ | ⟨status, last⟩, -⟩⟩ :=
    inOrderCases inst (c.read f) f
  · have total : wrap 16 (c.rfdc.currentTotalLength + f.size) = f.span.stop := by
      rw [← next]
      exact wrapSmall proper.2
    have whole : f.span.stop = size ((taken ++ [f]).map Fragment.span) := by
      rw [List.map_append, sizeAppend, ← sound.totalExact, ← next]
      simp [Fragment.span, Span.stop]
    rw [bad]
    refine .tooLarge (g := f) (by simp) last whole ?_
    rw [← total]
    exact large
  · obtain ⟨sound', free'⟩ := soundRead.continue inst free prefixOnly next room proper more
    rw [kept]
    refine .taken clear (sound'.firstFragment (by simp)) (by rw [firstFragmentNext, free'])
      fun ooo => ?_
    rw [firstFragmentOoo, (inOrderStill (c.read f) f).trans prefixOnly] at ooo
    exact absurd ooo (by decide)
  · obtain ⟨holds, whole⟩ := soundRead.finishInOrder inst free prefixOnly next room proper
      last (by simp [status])
    rw [status]
    exact .inOrder (holds.firstFragment (by simp)) whole.firstFragment

theorem insertedProgress {l r : List Nat} {c' : Context} (sound : Sound c taken k order)
    (free : c.rfdc.nextIndex = taken.length) (clear : ¬ EcnConflict c f)
    (ooo : c.rfdc.outOfOrder = true) (room : taken.length < maxNumOfFrags) (proper : f.Proper)
    (result : Insertion (c.read f) f order l r c') :
    Progress inst c f taken (settle f (placed inst c' f)) := by
  have soundRead : Sound (c.read f) taken k order := sound.read
  obtain ⟨slot, ⟨bad, reached, large⟩ | ⟨status, shape⟩⟩ := placedCases inst c' f
  · have settled : settle f (placed inst c' f) = ((placed inst c' f).1, .malfMaxReassFrmSz) := by
      rw [settle, if_pos (by rw [bad]; rfl)]
      exact Prod.ext rfl bad
    have header : c'.rfdc.firstFragHdrLength = (c.read f).rfdc.firstFragHdrLength := by
      rw [result.rfdc]
    obtain ⟨roomy, limit⟩ : ∃ i : Instance, i.maxReassFrmSize =
        wrap 16 (c'.rfdc.currentTotalLength + f.size) + c'.rfdc.firstFragHdrLength :=
      ⟨⟨_, 0, 0⟩, rfl⟩
    obtain ⟨slot, ⟨-, -, small⟩ | ⟨status, shape⟩⟩ := placedCases roomy c' f
    · exact absurd small (by rw [limit]; exact lt_irrefl _)
    have fits : (placed roomy c' f).2 ≠ .malfMaxReassFrmSz := by
      rcases status with ⟨kept, -⟩ | ⟨last, -⟩
      · simp [kept]
      · simp [last]
    obtain ⟨sound', -⟩ := soundRead.insert free ooo room proper result fits
    obtain ⟨-, -, g, member, last, stops⟩ := sound'.whole
      (by rw [shape, result.rfdc]; exact ooo) (by rw [shape]; exact reached)
    rw [settled]
    refine .tooLarge member last (stops.trans sound'.totalExact) ?_
    rw [stops, shape, ← header]
    exact large
  · have fits : (placed inst c' f).2 ≠ .malfMaxReassFrmSz := by
      rcases status with ⟨kept, -⟩ | ⟨last, -⟩
      · simp [kept]
      · simp [last]
    obtain ⟨sound', free'⟩ := soundRead.insert free ooo room proper result fits
    have sound' := sound'.firstFragment (f := f) (by simp)
    rcases status with ⟨kept, missing, -⟩ | ⟨status, reached⟩
    · have settled : settle f (placed inst c' f) =
          (firstFragment (placed inst c' f).1 f, .fragOkReassNotCompl) := by
        simp [settle, kept, FragStatus.malformed]
      rw [settled]
      refine .taken clear sound' (by rw [firstFragmentNext, free' kept]) fun _ => ?_
      rw [firstFragmentTotal, firstFragmentExpected, shape]
      exact missing
    · have settled : settle f (placed inst c' f) =
          (firstFragment (placed inst c' f).1 f, .lastFragOutOfOrder) := by
        simp [settle, status, FragStatus.malformed]
      have still : (firstFragment (placed inst c' f).1 f).rfdc.outOfOrder = true := by
        rw [firstFragmentOoo, shape, result.rfdc]
        exact ooo
      have complete : (firstFragment (placed inst c' f).1 f).rfdc.currentTotalLength =
          (firstFragment (placed inst c' f).1 f).rfdc.expectedTotalLength := by
        rw [firstFragmentTotal, firstFragmentExpected, shape]
        exact reached
      rw [settled]
      exact .outOfOrder still sound' (sound'.whole still complete)

theorem gapUnfinished (sound : Sound c taken k order) (prefixOnly : c.rfdc.outOfOrder = false)
    (beyond : c.rfdc.currentTotalLength < f.offset) (proper : f.Proper) :
    (newOutOfOrder c f).1.rfdc.currentTotalLength ≠
      (newOutOfOrder c f).1.rfdc.expectedTotalLength := by
  obtain ⟨positive, small⟩ := proper
  obtain ⟨-, unknown⟩ := sound.quiet prefixOnly
  have stop : wrap 16 (f.offset + f.size) = f.offset + f.size := wrapSmall small
  have total : wrap 16 (c.rfdc.currentTotalLength + f.size) = c.rfdc.currentTotalLength + f.size := by
    refine wrapSmall ?_
    simp only [maxIpSize] at small
    omega
  have counted : (newOutOfOrder c f).1.rfdc.currentTotalLength =
      c.rfdc.currentTotalLength + f.size := by
    simp [newOutOfOrder, Context.storeFd, apply_ite Rfdc.currentTotalLength, total]
  have expected : (newOutOfOrder c f).1.rfdc.expectedTotalLength =
      if f.last then f.offset + f.size else 0 := by
    simp [newOutOfOrder, Context.storeFd, stop, apply_ite Rfdc.expectedTotalLength, unknown]
  rw [counted, expected]
  split <;> omega

variable (inst) in
theorem arrivalProgress (sound : Sound c taken k order) (free : c.rfdc.nextIndex = taken.length)
    (room : taken.length < maxNumOfFrags) (proper : f.Proper) :
    ∃ result, iprInsertToLinkList inst c f = some result ∧ Arrival inst c f order result ∧
      Progress inst c f taken result := by
  obtain ⟨result, answer, arrival⟩ := arrivalCases inst (f := f) sound.listed free
  refine ⟨result, answer, arrival, ?_⟩
  cases arrival with
  | ecn conflict => exact .refused rfl (by decide) (.ecn conflict) sound free (.inl rfl)
  | duplicate clear prefixOnly behind =>
    have inside : f.offset < c.inOrderTotal := by
      rwa [Context.inOrderTotal, if_neg (by simp [prefixOnly])]
    exact .refused rfl (by decide) (sound.prefixCovers proper inside) sound.read free (.inr rfl)
  | continued clear prefixOnly next =>
    exact continuedProgress sound free clear prefixOnly next room proper
  | gap clear prefixOnly beyond =>
    have soundRead : Sound (c.read f) taken k order := sound.read
    obtain ⟨sound', free'⟩ := soundRead.open free prefixOnly beyond room proper
    refine .taken clear (sound'.firstFragment (by simp)) (by rw [firstFragmentNext, free'])
      fun _ => ?_
    rw [firstFragmentTotal, firstFragmentExpected]
    exact gapUnfinished soundRead prefixOnly beyond proper
  | refused clear ooo why =>
    refine .refused (refusalMalformed why) ?_ (sound.blocked ooo proper why) sound.read free (.inr rfl)
    cases why <;> simp
  | inserted clear ooo result =>
    exact insertedProgress sound free clear ooo room proper result

end

end Flexbuild.IprFragments
