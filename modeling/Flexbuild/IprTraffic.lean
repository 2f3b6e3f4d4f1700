import Flexbuild.IprProgress

/-! Reassembly against arbitrary traffic: every context that fragments can bring about keeps their
ranges apart and sorted, and the datagram is complete when the context is closed. -/
namespace Flexbuild.IprFragments
open Words Links Tilings

inductive Reached (inst : Instance) (opened : Context) : Context → List Fragment → Prop where
  | start : Reached inst opened opened []
  | refused {c c' : Context} {f : Fragment} {s : FragStatus} {taken : List Fragment}
      (before : Reached inst opened c taken) (room : c.rfdc.numOfFrags < maxNumOfFrags)
      (check : checkForFragError inst f = none) (proper : f.Proper)
      (answer : iprInsertToLinkList inst c f = some (c', s)) (bad : s.malformed = true)
      (notSize : s ≠ .malfMaxReassFrmSz) : Reached inst opened c' taken
  | taken {c c' : Context} {f : Fragment} {taken : List Fragment}
      (before : Reached inst opened c taken) (room : c.rfdc.numOfFrags < maxNumOfFrags)
      (check : checkForFragError inst f = none) (proper : f.Proper)
      (answer : iprInsertToLinkList inst c f = some (c', .fragOkReassNotCompl)) :
      Reached inst opened c' (taken ++ [f])

def Context.prefixLength (c : Context) : Nat :=
  if c.rfdc.outOfOrder then if c.rfdc.orderAndOoo then c.rfdc.indexToOutOfOrder else 0
  else c.rfdc.nextIndex

structure Invariant (c : Context) (taken : List Fragment) : Prop where
  apart : (taken.map Fragment.span).Pairwise Apart
  covered : Tiles 0 ((taken.take c.prefixLength).map Fragment.span) c.inOrderTotal
  listed : ∃ order : List Nat,
    order.Perm (List.range' c.prefixLength (taken.length - c.prefixLength)) ∧
    List.iterate (nextOf c.links) c.rfdc.firstFragIndex order.length = order ∧
    List.iterate (prevOf c.links) c.rfdc.lastFragIndex order.length = order.reverse ∧
    (∀ i ∈ order, taken[i]?.map Fragment.span = some (spanAt c.links i)) ∧
    (order.map (spanAt c.links)).Pairwise fun a b => a.offset < b.offset
  biggest : c.rfdc.outOfOrder = true → (∀ f ∈ taken, f.span.stop ≤ c.rfdc.biggestPayload) ∧
    ∃ f ∈ taken, f.span.stop = c.rfdc.biggestPayload
  noBiggest : c.rfdc.outOfOrder = false → c.rfdc.biggestPayload = 0
  total : c.rfdc.currentTotalLength = size (taken.map Fragment.span)

def Fragment.keptHeader (f : Fragment) : Nat :=
  match f.header with
  | .ipv4 .. => f.ipHeaderSize
  | .ipv6 _ _ fraghdrOffset _ => minus 16 (minus 16 fraghdrOffset f.ipOffset) 40

structure Completed (c : Context) (taken : List Fragment) (length : Nat) : Prop where
  apart : (taken.map Fragment.span).Pairwise Apart
  total : c.rfdc.currentTotalLength = length
  covers : ∀ x, x < length ↔ ∃ f ∈ taken, f.offset ≤ x ∧ x < f.span.stop
  last : ∃ f ∈ taken, f.last = true ∧ f.span.stop = length
  header : ∀ f ∈ taken, f.offset = 0 →
    updatedLength c.rfdc f.header = wrap 16 (length + f.keptHeader)

section
variable {inst : Instance} {c : Context} {f : Fragment} {k : Nat} {order : List Nat}
  {taken : List Fragment}

theorem Sound.prefixLength (sound : Sound c taken k order)
    (free : c.rfdc.outOfOrder = false → c.rfdc.nextIndex = taken.length) : c.prefixLength = k := by
  unfold Context.prefixLength
  cases ooo : c.rfdc.outOfOrder with
  | false =>
    rw [if_neg (by decide), (sound.listed.inOrder ooo).1]
    exact free ooo
  | true =>
    rw [if_pos rfl]
    cases mixed : c.rfdc.orderAndOoo with
    | false =>
      rw [if_neg (by decide)]
      exact (sound.listed.alone ooo mixed).1.symm
    | true =>
      rw [if_pos rfl]
      exact (sound.listed.mixed ooo mixed).1.symm

theorem iterated {next prev : Nat → Nat} {first last : Nat}
    (linked : Linked next prev order) (begins : ∀ a ∈ order.head?, first = a)
    (ends : ∀ a ∈ order.getLast?, last = a) :
    List.iterate next first order.length = order ∧
      List.iterate prev last order.length = order.reverse := by
  cases order with
  | nil => exact ⟨rfl, rfl⟩
  | cons a rest =>
    obtain ⟨b, final⟩ : ∃ b, (a :: rest).getLast? = some b := ⟨_, List.getLast?_cons⟩
    refine ⟨followedFrom linked ?_, followedBack linked ?_⟩
    · rw [begins a rfl]
      rfl
    · rw [ends b final, final]

theorem Sound.increasing (sound : Sound c taken k order) :
    (order.map (spanAt c.links)).Pairwise fun a b => a.offset < b.offset := by
  have sorted := List.isChain_iff_pairwise.mp sound.arrangedSorted.right_of_append
  refine sorted.imp_of_mem fun {a b} inside _ before => ?_
  obtain ⟨i, listed, rfl⟩ := List.mem_map.mp inside
  obtain ⟨g, member, span⟩ := sound.member listed
  have positive : 0 < g.size := (sound.proper g member).1
  rw [← span] at before ⊢
  simp only [Before, Span.stop, Fragment.span] at *
  omega

theorem Sound.invariant (sound : Sound c taken k order)
    (free : c.rfdc.outOfOrder = false → c.rfdc.nextIndex = taken.length) :
    Invariant c taken := by
  have length := sound.prefixLength free
  obtain ⟨forward, backward⟩ := iterated sound.listed.linked sound.listed.first sound.listed.final
  constructor
  case apart => exact sound.apart
  case covered =>
    rw [length]
    exact sound.tiles
  case listed =>
    rw [length]
    exact ⟨order, sound.listed.places, forward, backward, sound.spans, sound.increasing⟩
  case biggest =>
    intro ooo
    refine ⟨fun g member => ?_, ?_⟩
    · exact sound.below ooo _ (sound.arrangedPerm.mem_iff.mpr (List.mem_map_of_mem member))
    · obtain ⟨front, i, rfl⟩ := (List.eq_nil_or_concat' order).resolve_left
        (sound.listed.nonempty ooo)
      obtain ⟨g, member, span⟩ := sound.member (i := i) (by simp)
      exact ⟨g, member, by rw [span, (sound.sorted ooo).biggest i (by simp)]⟩
  case noBiggest => exact fun prefixOnly => (sound.quiet prefixOnly).1
  case total => exact sound.totalExact

def Headers (c : Context) (f : Fragment) : Prop :=
  c.rfdc.iphdrOffset = f.ipOffset ∧
    match f.header with
    | .ipv4 .. => True
    | .ipv6 _ _ fraghdrOffset _ => c.rfdc.ipv6FraghdrOffset = fraghdrOffset

def SameHeaders (c c' : Context) : Prop :=
  c'.rfdc.iphdrOffset = c.rfdc.iphdrOffset ∧ c'.rfdc.ipv6FraghdrOffset = c.rfdc.ipv6FraghdrOffset

theorem Headers.same {c' : Context} {g : Fragment} (headers : Headers c g)
    (same : SameHeaders c c') : Headers c' g := by
  obtain ⟨ip, extension⟩ := headers
  refine ⟨same.1.trans ip, ?_⟩
  split
  · trivial
  · next fraghdrOffset _ here =>
    rw [here] at extension
    exact same.2.trans extension

variable (inst) in
theorem inOrderHeaders (c : Context) (f : Fragment) : SameHeaders c (inOrder inst c f).1 := by
  simp only [inOrder]
  split
  · split <;> exact ⟨rfl, rfl⟩
  · exact ⟨rfl, rfl⟩

theorem newOutOfOrderHeaders (c : Context) (f : Fragment) :
    SameHeaders c (newOutOfOrder c f).1 := by
  by_cases empty : c.rfdc.nextIndex = 0 <;>
    simp [newOutOfOrder, SameHeaders, Context.storeFd, empty]

def HeadersAfter (c : Context) (f : Fragment) (result : Context × FragStatus) : Prop :=
  result.2.malformed = false ∧ f.offset = 0 ∧ Headers result.1 f ∨
    (result.2.malformed = true ∨ f.offset ≠ 0) ∧ SameHeaders c result.1

theorem settledHeaders {d : Context} {s : FragStatus} (same : SameHeaders c d)
    (good : s.malformed = false) : HeadersAfter c f (firstFragment d f, s) := by
  by_cases first : f.offset = 0
  · refine .inl ⟨good, first, ?_⟩
    unfold firstFragment Headers
    rw [if_pos first]
    refine ⟨rfl, ?_⟩
    cases header : f.header <;> simp
  · refine .inr ⟨.inr first, ?_⟩
    rw [firstFragment, if_neg first]
    exact same

theorem arrivalHeaders {result : Context × FragStatus} (arrival : Arrival inst c f order result)
    (fits : result.2 ≠ .malfMaxReassFrmSz) : HeadersAfter c f result := by
  cases arrival with
  | ecn conflict => exact .inr ⟨.inl rfl, rfl, rfl⟩
  | duplicate clear prefixOnly behind => exact .inr ⟨.inl rfl, rfl, rfl⟩
  | continued clear prefixOnly next =>
    refine settledHeaders (inOrderHeaders inst (c.read f) f) ?_
    obtain ⟨slot, ⟨bad, -⟩ | ⟨⟨kept, -⟩ | ⟨last, -⟩, -⟩⟩ := inOrderCases inst (c.read f) f
    · exact absurd bad fits
    · rw [kept]
      rfl
    · rw [last]
      rfl
  | gap clear prefixOnly beyond => exact settledHeaders (newOutOfOrderHeaders (c.read f) f) rfl
  | refused clear ooo why => exact .inr ⟨.inl (refusalMalformed why), rfl, rfl⟩
  | @inserted l r c' clear ooo result =>
    have same : SameHeaders c (placed inst c' f).1 := by
      obtain ⟨next, fds, shape⟩ := placedShape inst c' f
      rw [shape, SameHeaders, result.rfdc]
      exact ⟨rfl, rfl⟩
    obtain ⟨slot, ⟨bad, -⟩ | ⟨⟨kept, -⟩ | ⟨last, -⟩, -⟩⟩ := placedCases inst c' f
    · simp [settle, bad, FragStatus.malformed] at fits
    · have good : (placed inst c' f).2.malformed = false := by rw [kept]; rfl
      rw [settle, if_neg (by simp [good])]
      exact settledHeaders same good
    · have good : (placed inst c' f).2.malformed = false := by rw [last]; rfl
      rw [settle, if_neg (by simp [good])]
      exact settledHeaders same good

def HeadersKept (c : Context) (taken : List Fragment) : Prop :=
  ∀ g ∈ taken, g.offset = 0 → Headers c g

theorem HeadersKept.refuse {c' : Context} {s : FragStatus} (kept : HeadersKept c taken)
    (after : HeadersAfter c f (c', s)) (bad : s.malformed = true) : HeadersKept c' taken := by
  rcases after with ⟨good, -⟩ | ⟨-, same⟩
  · exact absurd (good.symm.trans bad) (by decide)
  · exact fun g member first => (kept g member first).same same

theorem HeadersKept.take {c' : Context} {s : FragStatus} (kept : HeadersKept c taken)
    (after : HeadersAfter c f (c', s)) (good : s.malformed = false)
    (apart : ((taken ++ [f]).map Fragment.span).Pairwise Apart) (proper : f.Proper)
    (others : ∀ g ∈ taken, g.Proper) : HeadersKept c' (taken ++ [f]) := by
  intro g member first
  rcases after with ⟨-, start, headers⟩ | ⟨notFirst, same⟩
  · rcases List.mem_append.mp member with old | new
    · -- Two nonempty fragments do not both begin at zero.
      have clear : Apart g.span f.span := by
        rw [List.map_append] at apart
        exact (List.pairwise_append.mp apart).2.2 _ (List.mem_map_of_mem old) _ (by simp)
      have some := proper.1
      have more := (others g old).1
      simp only [Apart, Before, Fragment.span, Span.stop] at clear
      omega
    · rw [List.mem_singleton.mp new]
      exact headers
  · rcases List.mem_append.mp member with old | new
    · exact (kept g old first).same same
    · rw [List.mem_singleton.mp new] at first
      rcases notFirst with bad | later
      · exact absurd (good.symm.trans bad) (by decide)
      · exact absurd first later

theorem lengthUpdated {L : Nat} (headers : Headers c f) (total : c.rfdc.currentTotalLength = L) :
    updatedLength c.rfdc f.header = wrap 16 (L + f.keptHeader) := by
  obtain ⟨ip, extension⟩ := headers
  unfold updatedLength Fragment.keptHeader Fragment.ipHeaderSize
  cases header : f.header with
  | ipv4 vsnAndIhl tos totalLength flagsAndOffset => simp only [total]
  | ipv6 traffic payload fraghdrOffset offsetAndFlags =>
    rw [header] at extension
    simp only [total, ip, extension]

theorem Whole.apart {slots : List Nat} (whole : Whole c taken slots) :
    (taken.map Fragment.span).Pairwise Apart :=
  (whole.perm.pairwise_iff apartComm).mp (sortedPairwise (tilesSorted whole.tiles))

theorem Whole.completed {slots : List Nat} (whole : Whole c taken slots)
    (headers : HeadersKept c taken) : Completed c taken c.rfdc.currentTotalLength := by
  refine ⟨whole.apart, rfl, fun x => ?_, whole.last, fun g member first => ?_⟩
  · have covered := tilesCover whole.tiles x
    simp only [Nat.zero_le, true_and, whole.perm.mem_iff] at covered
    rw [covered]
    simp [Fragment.span]
  · exact lengthUpdated (headers g member first) rfl

theorem answerUnique {result result' : Context × FragStatus}
    (answer : iprInsertToLinkList inst c f = some result)
    (answer' : iprInsertToLinkList inst c f = some result') : result = result' :=
  Option.some.inj (answer.symm.trans answer')

theorem reachedSound {opened : Context} (start : Sound opened [] 0 [])
    (free : opened.rfdc.nextIndex = 0) (reached : Reached inst opened c taken) :
    (∃ k order, Sound c taken k order) ∧ c.rfdc.nextIndex = taken.length ∧
      HeadersKept c taken := by
  induction reached with
  | start => exact ⟨⟨0, [], start⟩, free, by simp [HeadersKept]⟩
  | @refused c c' f s taken before room check proper answer bad notSize ih =>
    obtain ⟨⟨k, order, sound⟩, free, headers⟩ := ih
    have few : taken.length < maxNumOfFrags := sound.listed.counted ▸ room
    obtain ⟨result, same, arrival, progress⟩ := arrivalProgress inst sound free few proper
    obtain rfl := answerUnique answer same
    have kept := headers.refuse (arrivalHeaders arrival notSize) bad
    cases progress with
    | refused _ _ _ sound free => exact ⟨⟨_, _, sound⟩, free, kept⟩
    | taken => exact absurd bad (by decide)
    | inOrder => exact absurd bad (by decide)
    | outOfOrder => exact absurd bad (by decide)
    | tooLarge => exact absurd rfl notSize
  | @taken c c' f taken before room check proper answer ih =>
    obtain ⟨⟨k, order, sound⟩, free, headers⟩ := ih
    have few : taken.length < maxNumOfFrags := sound.listed.counted ▸ room
    obtain ⟨result, same, arrival, progress⟩ := arrivalProgress inst sound free few proper
    obtain rfl := answerUnique answer same
    cases progress with
    | refused bad => exact absurd bad (by decide)
    | taken clear sound' free' =>
      refine ⟨⟨_, _, sound'⟩, by simpa using free', ?_⟩
      exact headers.take (arrivalHeaders arrival (by simp)) rfl sound'.apart proper sound.proper

end

theorem keptAgainstTraffic (inst : Instance) (hdrLength iphdrOffset fraghdrOffset : Nat)
    (links : LinkList) {c : Context} {taken : List Fragment}
    (reached : Reached inst (iprMissHandling hdrLength iphdrOffset fraghdrOffset links) c taken) :
    Invariant c taken ∧
    ∀ f : Fragment, c.rfdc.numOfFrags < maxNumOfFrags → checkForFragError inst f = none →
      f.Proper → ∃ c' s, iprInsertToLinkList inst c f = some (c', s) ∧
        (s.isLast = true → (∃ length, Completed c' (taken ++ [f]) length) ∧
          (s = .lastFragOutOfOrder → Invariant c' (taken ++ [f]))) := by
  obtain ⟨⟨k, order, sound⟩, free, headers⟩ :=
    reachedSound (soundOpened hdrLength iphdrOffset fraghdrOffset links) rfl reached
  refine ⟨sound.invariant fun _ => free, fun f room _ proper => ?_⟩
  have few : taken.length < maxNumOfFrags := sound.listed.counted ▸ room
  obtain ⟨⟨c', s⟩, answer, arrival, progress⟩ := arrivalProgress inst sound free few proper
  refine ⟨c', s, answer, fun last => ?_⟩
  cases progress with
  | refused bad => cases s <;> simp [FragStatus.isLast, FragStatus.malformed] at last bad
  | taken => exact absurd last (by decide)
  | inOrder holds whole =>
    have kept := headers.take (arrivalHeaders arrival (by simp)) rfl whole.apart proper sound.proper
    exact ⟨⟨_, whole.completed kept⟩, by simp⟩
  | outOfOrder ooo sound' whole =>
    have kept := headers.take (arrivalHeaders arrival (by simp)) rfl whole.apart proper sound.proper
    refine ⟨⟨_, whole.completed kept⟩, fun _ => sound'.invariant fun prefixOnly => ?_⟩
    exact absurd (ooo.symm.trans prefixOnly) (by decide)
  | tooLarge => exact absurd last (by decide)

theorem keptAgainstTrafficGap :
    Invariant ((iprInsertToLinkList ⟨1500, 0, 0⟩ sampleContext (sampleFragment 8)).get rfl).1
      [sampleFragment 8] :=
  (keptAgainstTraffic ⟨1500, 0, 0⟩ 0 0 0 default
    (.taken .start (by decide) (by decide) ⟨by decide, by decide⟩ rfl)).1

theorem prefixNotMeasured :
    (iprInsertToLinkList ⟨1500, 0, 0⟩ sampleContext (sampleFragment 0x2000)).map
        (fun result => (result.2, (sampleFragment 0x2000).span.stop, result.1.rfdc.biggestPayload)) =
      some (.fragOkReassNotCompl, 64, 0) := by
  decide

end Flexbuild.IprFragments
