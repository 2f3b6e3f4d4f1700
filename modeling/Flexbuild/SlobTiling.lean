import Flexbuild.SlobGeometry

/-! The allocator as a whole. Busy blocks and the blocks of free list 0 tile the region
given to `slob_init`, and every other free list is the image of free list 0 under
rounding. One `slob_get` or `slob_put` that finds its descriptors keeps both, so every
run does. -/
namespace Flexbuild.Slob
open Words BootMemory Chains Intervals

-- A list whose first aligned address lies past the region only has the empty block
-- of `slob_init`, for ever.
def ListOk (first stop : Nat) (free : List Span) (i : Index) (xs : List Node) : Prop :=
  up i first < stop ∧ Image i free (spans xs) ∨
    stop ≤ up i first ∧ (spans xs = [⟨0, 0⟩] ∨ spans xs = [⟨stop, stop⟩])

theorem emptyMem {stop : Nat} {xs : List Node} (empty : spans xs = [⟨0, 0⟩] ∨ spans xs = [⟨stop, stop⟩])
    {n : Node} (mem : n ∈ xs) : n.value = ⟨0, 0⟩ ∨ n.value = ⟨stop, stop⟩ := by
  have value : n.value ∈ spans xs := List.mem_map_of_mem mem
  rcases empty with empty | empty
  · exact Or.inl (by simpa [empty] using value)
  · exact Or.inr (by simpa [empty] using value)

section lists
variable {first stop : Nat} {pre post : List Span}

theorem cutListOk {hold f : Span} {i : Index} {xs xs' : List Node} {spare spare' : List Nat}
    (within : Within hold f) (sep : Separated (pre ++ f :: post)) (inside : f.endAddr ≤ stop)
    (room : stop + 2 ^ 20 ≤ 2 ^ 64) (ok : ListOk first stop (pre ++ f :: post) i xs)
    (done : cutNodes hold.base hold.endAddr i xs spare = some (xs', spare')) :
    ListOk first stop (pre ++ (pieces hold f ++ post)) i xs' := by
  rcases ok with ⟨live, img⟩ | ⟨past, empty⟩
  · exact Or.inl ⟨live, cutImage within sep (by omega) img done⟩
  · have proper := within.proper
    have high := within.high
    unfold Extent.Proper at proper
    rw [cutNodesClear spare proper] at done
    · cases done
      exact Or.inr ⟨past, empty⟩
    · intro n mem
      rcases emptyMem empty mem with value | value <;> rw [value] <;> simp only <;> omega

theorem listsWalked {good : Index → List Node → Prop} {i : Index} {rest : List Index} {v v₁ v' : View} (fresh : i ∉ rest)
    (here : good i (v₁.lists (.free i))) (same : ∀ j, j ≠ i → v₁.lists (.free j) = v.lists (.free j))
    (later : ∀ j ∈ rest, good j (v'.lists (.free j))) (frame : ∀ j, j ∉ rest → v'.lists (.free j) = v₁.lists (.free j)) :
    (∀ j ∈ i :: rest, good j (v'.lists (.free j))) ∧ ∀ j, j ∉ i :: rest → v'.lists (.free j) = v.lists (.free j) := by
  constructor
  · intro j mem
    rcases List.mem_cons.mp mem with rfl | mem
    · rw [frame j fresh]
      exact here
    · exact later j mem
  · intro j outside
    rw [List.mem_cons, not_or] at outside
    rw [frame j outside.2, same j outside.1]

theorem cutLists {hold f : Span} {lists : List Index} {v v' : View} (within : Within hold f)
    (sep : Separated (pre ++ f :: post)) (inside : f.endAddr ≤ stop) (room : stop + 2 ^ 20 ≤ 2 ^ 64)
    (nodup : lists.Nodup) (ok : ∀ i ∈ lists, ListOk first stop (pre ++ f :: post) i (v.lists (.free i)))
    (done : v.cut hold.base hold.endAddr lists = (.ok (), v')) :
    (∀ i ∈ lists, ListOk first stop (pre ++ (pieces hold f ++ post)) i (v'.lists (.free i))) ∧
      ∀ i, i ∉ lists → v'.lists (.free i) = v.lists (.free i) := by
  induction lists generalizing v with
  | nil =>
    cases done
    exact ⟨by simp, fun _ _ => rfl⟩
  | cons i rest ih =>
    obtain ⟨fresh, nodupRest⟩ := List.nodup_cons.mp nodup
    unfold View.cut at done
    split at done
    · cases done
    rename_i nodes spare cut
    have here := cutListOk within sep inside room (ok i List.mem_cons_self) cut
    have others : ∀ j, j ≠ i → ({v.setList (.free i) nodes with spare := spare} : View).lists (.free j) =
        v.lists (.free j) := by
      intro j ne
      exact Function.update_of_ne (fun eq => ne (Which.free.inj eq)) _ _
    have apart : ∀ j ∈ rest, j ≠ i := fun j mem eq => fresh (eq ▸ mem)
    obtain ⟨later, frame⟩ := ih nodupRest
      (fun j mem => by rw [others j (apart j mem)]; exact ok j (List.mem_cons_of_mem _ mem)) done
    exact listsWalked fresh (by simpa [View.setList] using here) others later frame

theorem boundariesOther {i : Index} (merged : Option Span) (bounds : Span) (other : i ≠ 0) :
    boundaries i merged bounds = bounds := by
  have two : alignment i ≠ 1 := by
    unfold alignment
    have pos : i.val ≠ 0 := fun zero => other (Fin.ext zero)
    exact (Nat.one_lt_two_pow pos).ne'
  unfold boundaries
  cases merged with
  | none => rfl
  | some b => simp [two]

theorem addListOk {p joined bounds : Span} {touched : List Span} {i : Index} {v v' : View}
    (join : Join p pre touched post joined) (proper : p.Proper) (sep : Separated (pre ++ (touched ++ post)))
    (low : first ≤ joined.base) (high : joined.endAddr ≤ stop) (room : stop + 2 ^ 20 ≤ 2 ^ 64) (other : i ≠ 0)
    (ok : ListOk first stop (pre ++ (touched ++ post)) i (v.lists (.free i)))
    (done : v.addList i joined = some (bounds, v')) :
    bounds = joined ∧ ListOk first stop (pre ++ joined :: post) i (v'.lists (.free i)) ∧
      ∀ j, j ≠ i → v'.lists (.free j) = v.lists (.free j) := by
  have properJoined : joined.Proper := (joinSeparated join proper sep).1 joined (by simp)
  unfold Extent.Proper at properJoined
  unfold View.addList at done
  simp only [alignUpIs i (by omega : joined.base + 2 ^ 20 ≤ 2 ^ 64)] at done
  split_ifs at done with past
  · cases done
    refine ⟨rfl, ?_, fun _ _ => rfl⟩
    rcases ok with ⟨live, img⟩ | dead
    · exact Or.inl ⟨live, skipImage join proper sep img past⟩
    · exact Or.inr dead
  · obtain ⟨r, added, made⟩ := Option.map_eq_some_iff.mp done
    cases made
    have below := Nat.lt_of_not_le past
    rw [minusExact below.le (by omega)] at added
    refine ⟨boundariesOther _ _ other, ?_, ?_⟩
    · rcases ok with ⟨live, img⟩ | ⟨beyond, _⟩
      · left
        refine ⟨live, ?_⟩
        simpa [View.setList] using addImage join proper sep (by omega) img below added
      · have mono := upMono i low
        omega
    · intro j ne
      exact Function.update_of_ne (fun eq => ne (Which.free.inj eq)) _ _

theorem addLists {p joined : Span} {touched : List Span} {lists : List Index} {v v' : View}
    (join : Join p pre touched post joined) (proper : p.Proper) (sep : Separated (pre ++ (touched ++ post)))
    (low : first ≤ joined.base) (high : joined.endAddr ≤ stop) (room : stop + 2 ^ 20 ≤ 2 ^ 64)
    (nodup : lists.Nodup) (others : ∀ i ∈ lists, i ≠ 0)
    (ok : ∀ i ∈ lists, ListOk first stop (pre ++ (touched ++ post)) i (v.lists (.free i)))
    (done : v.add lists joined = (.ok (), v')) :
    (∀ i ∈ lists, ListOk first stop (pre ++ joined :: post) i (v'.lists (.free i))) ∧
      ∀ i, i ∉ lists → v'.lists (.free i) = v.lists (.free i) := by
  induction lists generalizing v with
  | nil =>
    cases done
    exact ⟨by simp, fun _ _ => rfl⟩
  | cons i rest ih =>
    obtain ⟨fresh, nodupRest⟩ := List.nodup_cons.mp nodup
    unfold View.add at done
    split at done
    · cases done
    rename_i bounds v₁ added
    obtain ⟨rfl, here, same⟩ := addListOk join proper sep low high room (others i List.mem_cons_self)
      (ok i List.mem_cons_self) added
    have apart : ∀ j ∈ rest, j ≠ i := fun j mem eq => fresh (eq ▸ mem)
    obtain ⟨later, frame⟩ := ih nodupRest (fun j mem => others j (List.mem_cons_of_mem _ mem))
      (fun j mem => by rw [same j (apart j mem)]; exact ok j (List.mem_cons_of_mem _ mem)) done
    exact listsWalked fresh here same later frame

end lists

def View.spans (v : View) (w : Which) : List Span := Slob.spans (v.lists w)

structure Tiled (first stop : Nat) (v : View) : Prop where
  separated : Separated (v.spans (.free 0))
  proper : ∀ b ∈ v.spans .busy, b.Proper
  sorted : (v.spans .busy).Pairwise (fun a b => a.base < b.base)
  tile : ∀ x, hits (v.spans .busy ++ v.spans (.free 0)) x = if first ≤ x ∧ x < stop then 1 else 0
  lists : ∀ i, ListOk first stop (v.spans (.free 0)) i (v.lists (.free i))
  freeMemSize : v.freeMemSize = total (v.spans (.free 0))

namespace Tiled
variable {first stop : Nat} {v : View}

theorem once (tiled : Tiled first stop v) (x : Nat) : hits (v.spans .busy ++ v.spans (.free 0)) x ≤ 1 := by
  rw [tiled.tile x]
  split_ifs <;> omega

theorem inside (tiled : Tiled first stop v) {b : Span} (mem : b ∈ v.spans .busy ++ v.spans (.free 0))
    (proper : b.Proper) : first ≤ b.base ∧ b.endAddr ≤ stop := by
  unfold Extent.Proper at proper
  have low := hitsPos mem (⟨le_rfl, proper⟩ : b.Has b.base)
  have high := hitsPos mem (⟨by omega, by omega⟩ : b.Has (b.endAddr - 1))
  rw [tiled.tile] at low high
  split_ifs at low high
  · omega
  all_goals simp at low high

theorem freeInside (tiled : Tiled first stop v) {f : Span} (mem : f ∈ v.spans (.free 0)) :
    first ≤ f.base ∧ f.endAddr ≤ stop :=
  tiled.inside (List.mem_append_right _ mem) (tiled.separated.1 f mem)

theorem freeTotal (tiled : Tiled first stop v) : total (v.spans (.free 0)) ≤ stop - first :=
  separatedTotal tiled.separated (fun _ mem => tiled.freeInside mem)

theorem apart (tiled : Tiled first stop v) {b f : Span} (busy : b ∈ v.spans .busy) (free : f ∈ v.spans (.free 0)) :
    Apart b f :=
  apartOfHits tiled.once busy free (tiled.proper b busy) (tiled.separated.1 f free)

theorem found (tiled : Tiled first stop v) {i : Index} {n : Node} {size : Nat} (room : stop + 2 ^ 20 ≤ 2 ^ 64)
    (mem : n ∈ v.lists (.free i)) (positive : 1 ≤ size) (fits : size ≤ minus 64 n.value.endAddr n.value.base) :
    ∃ f ∈ v.spans (.free 0), n.value = image i f ∧ up i f.base + size ≤ f.endAddr := by
  rcases tiled.lists i with ⟨_, img⟩ | ⟨_, empty⟩
  · obtain ⟨f, inside, same, below⟩ := imageMem img (List.mem_map_of_mem mem)
    have high := (tiled.freeInside inside).2
    simp only [same, image] at fits
    rw [minusExact below.le (by omega)] at fits
    exact ⟨f, inside, same, by omega⟩
  · rcases emptyMem empty mem with value | value <;> rw [value, minusExact le_rfl (by simp only; omega)] at fits <;>
      simp only at fits <;> omega

theorem holding (tiled : Tiled first stop v) {i : Index} {n : Node} {size : Nat} (room : stop + 2 ^ 20 ≤ 2 ^ 64)
    (mem : n ∈ v.lists (.free i)) (positive : 1 ≤ size) (fits : size ≤ minus 64 n.value.endAddr n.value.base) :
    ∃ f pre post, v.spans (.free 0) = pre ++ f :: post ∧ Within ⟨n.value.base, n.value.base + size⟩ f ∧
      (first ≤ f.base ∧ f.endAddr ≤ stop) ∧ wrap 64 (n.value.base + size) = n.value.base + size := by
  obtain ⟨f, inside, value, below⟩ := tiled.found room mem positive fits
  obtain ⟨low, high⟩ := tiled.freeInside inside
  obtain ⟨pre, post, split⟩ := List.append_of_mem inside
  have above := leUp i f.base
  have start : n.value.base = up i f.base := by rw [value]; rfl
  rw [start]
  exact ⟨f, pre, post, split, ⟨above, by simp only [Extent.Proper]; omega, below⟩, ⟨low, high⟩,
    wrapSmall (by omega)⟩

end Tiled

theorem busySorted {new : Node} {xs : List Node} (sorted : (spans xs).Pairwise (fun a b => a.base < b.base))
    (other : ∀ b ∈ spans xs, b.base ≠ new.value.base) :
    (spans (busyNodes new xs)).Pairwise (fun a b => a.base < b.base) := by
  induction xs with
  | nil => exact List.pairwise_singleton _ _
  | cons n rest ih =>
    obtain ⟨above, sortedRest⟩ := List.pairwise_cons.mp sorted
    have ne := other n.value List.mem_cons_self
    unfold busyNodes
    split_ifs with before
    · refine List.pairwise_cons.mpr ⟨?_, ih sortedRest (fun b mem => other b (List.mem_cons_of_mem _ mem))⟩
      intro b mem
      have perm := (Kept.busyNodesPerm new rest).map Node.value
      rcases List.mem_cons.mp (perm.mem_iff.mp mem) with rfl | later
      · exact before
      · exact above b later
    · refine List.pairwise_cons.mpr ⟨?_, sorted⟩
      intro b mem
      rcases List.mem_cons.mp mem with rfl | later
      · omega
      · have := above b later
        omega

theorem takeBusySublist {base : Nat} {xs rest : List Node} {n : Node} (taken : takeBusy base xs = some (n, rest)) :
    rest.Sublist xs := by
  induction xs generalizing rest with
  | nil => cases taken
  | cons k xs ih =>
    unfold takeBusy at taken
    split_ifs at taken with other
    · obtain ⟨⟨n', rest'⟩, tail, made⟩ := Option.map_eq_some_iff.mp taken
      cases made
      exact (ih tail).cons_cons k
    · cases taken
      exact List.sublist_cons_self _ _

variable {first stop : Nat}

theorem listZero {free : List Span} {xs : List Node} (nonempty : first < stop)
    (proper : ∀ f ∈ free, f.Proper) (ok : ListOk first stop free 0 xs) : spans xs = free := by
  rcases ok with ⟨_, img⟩ | ⟨past, _⟩
  · exact imageUnit img proper
  · rw [upZero] at past
    omega

theorem imageRefl {fs : List Span} (proper : ∀ f ∈ fs, f.Proper) : Image 0 fs fs := by
  induction fs with
  | nil => exact .nil
  | cons f fs ih =>
    have here := proper f List.mem_cons_self
    have keep := Image.keep (i := 0) (f := f) (by rw [upZero]; exact here)
      (ih (fun g mem => proper g (List.mem_cons_of_mem _ mem)))
    rwa [image, upZero] at keep

namespace Tiled
variable {first stop : Nat} {v : View}

theorem remove {w : View} {hold f : Span} {pre post : List Span} (tiled : Tiled first stop v)
    (within : Within hold f) (split : v.spans (.free 0) = pre ++ f :: post)
    (zero : w.spans (.free 0) = pre ++ (pieces hold f ++ post)) (perm : (w.spans .busy).Perm (hold :: v.spans .busy))
    (sorted : (w.spans .busy).Pairwise (fun a b => a.base < b.base))
    (lists : ∀ i, ListOk first stop (w.spans (.free 0)) i (w.lists (.free i)))
    (freeMemSize : w.freeMemSize + hold.length = v.freeMemSize) : Tiled first stop w where
  separated := by
    rw [zero]
    exact removeSeparated within (split ▸ tiled.separated)
  proper := by
    intro b mem
    rcases List.mem_cons.mp (perm.mem_iff.mp mem) with rfl | mem
    · exact within.proper
    · exact tiled.proper b mem
  sorted := sorted
  tile := by
    intro x
    have hit := piecesHits within x
    rw [← tiled.tile x, zero, split]
    simp only [hitsAppend, hitsPerm perm, hitsCons, hitsNil] at hit ⊢
    omega
  lists := lists
  freeMemSize := by
    have all := tiled.freeMemSize
    have sum := piecesTotal within
    rw [zero]
    rw [split] at all
    simp only [totalAppend, totalCons] at all ⊢
    omega

theorem join {w : View} {p joined : Span} {pre touched post : List Span} (tiled : Tiled first stop v)
    (joins : Join p pre touched post joined) (proper : p.Proper)
    (split : v.spans (.free 0) = pre ++ (touched ++ post)) (zero : w.spans (.free 0) = pre ++ joined :: post)
    (perm : (v.spans .busy).Perm (p :: w.spans .busy))
    (sorted : (w.spans .busy).Pairwise (fun a b => a.base < b.base))
    (lists : ∀ i, ListOk first stop (w.spans (.free 0)) i (w.lists (.free i)))
    (freeMemSize : w.freeMemSize = v.freeMemSize + p.length) : Tiled first stop w where
  separated := by
    rw [zero]
    exact joinSeparated joins proper (split ▸ tiled.separated)
  proper := fun b mem => tiled.proper b (perm.mem_iff.mpr (List.mem_cons_of_mem _ mem))
  sorted := sorted
  tile := by
    intro x
    have hit := joinHits joins proper (split ▸ tiled.separated) x
    rw [← tiled.tile x, hitsAppend, hitsAppend, hitsPerm perm, zero, split, hit]
    simp only [hitsCons, hitsNil]
    omega
  lists := lists
  freeMemSize := by
    rw [freeMemSize, zero, joinTotal joins proper (split ▸ tiled.separated), tiled.freeMemSize, split]

theorem getStep {size : Nat} {i : Index} {out : Except Refusal Nat × View} (tiled : Tiled first stop v)
    (room : stop + 2 ^ 20 ≤ 2 ^ 64) (positive : 1 ≤ size) (step : v.GetStep size i out)
    (served : out.1 ≠ .error .noDescriptor) : Tiled first stop out.2 := by
  cases step with
  | noBlock none => exact tiled
  | noDescriptor found search mem fits empty => exact absurd rfl served
  | cutShort found search mem fits addr spare some e v' failed => exact absurd rfl served
  | done found search mem fits addr spare some v' cut =>
    obtain ⟨f, pre, post, split, within, ⟨low, high⟩, whole⟩ := tiled.holding room mem positive fits
    have inside : f ∈ v.spans (.free 0) := by simp [split]
    rw [whole] at cut ⊢
    generalize new : (⟨addr, found.value.base, found.value.base + size⟩ : Node) = n at cut
    have hold : (⟨found.value.base, found.value.base + size⟩ : Span) = n.value := by rw [← new]
    have frame := View.cutFrame found.value.base (found.value.base + size) (List.finRange (mmMaxAlignment + 1))
      {v with held := n :: v.held, spare := spare}
    rw [cut] at frame
    obtain ⟨_, busy, size'⟩ := frame
    simp only at busy size'
    obtain ⟨ok, _⟩ := cutLists within (split ▸ tiled.separated) high room (List.nodup_finRange _)
      (fun j _ => split ▸ tiled.lists j) cut
    have nonempty := tiled.separated.1 f inside
    have start := within.low
    have stops := within.high
    unfold Extent.Proper at nonempty
    simp only at start stops
    have zero := listZero (by omega) (removeSeparated within (split ▸ tiled.separated)).1
      (ok 0 (List.mem_finRange _))
    have total' := tiled.freeTotal
    have sum := piecesTotal within
    have all := tiled.freeMemSize
    rw [split] at all total'
    simp only [totalAppend, totalCons, Extent.length] at all total' sum
    refine tiled.remove within split ?_ ?_ ?_ ?_ ?_
    · simpa [View.spans, View.setList] using zero
    · rw [hold]
      simpa [View.spans, spans, View.setList, busy] using (Kept.busyNodesPerm n (v.lists .busy)).map Node.value
    · have other : ∀ b ∈ v.spans .busy, b.base ≠ n.value.base := by
        intro b mem same
        have apart := tiled.apart mem inside
        have proper := tiled.proper b mem
        unfold Extent.Proper at proper
        unfold Apart at apart
        rw [← hold] at same
        simp only at same
        omega
      simpa [View.spans, View.setList, busy] using busySorted tiled.sorted other
    · intro j
      have here := ok j (List.mem_finRange j)
      rw [← zero] at here
      simpa [View.spans, View.setList] using here
    · change minus 64 v'.freeMemSize size + _ = _
      rw [size', minusExact (by omega) (by omega)]
      simp only [Extent.length]
      omega

theorem joinedInside {p joined : Span} {pre touched post : List Span} (joins : Join p pre touched post joined)
    (low : first ≤ p.base) (high : p.endAddr ≤ stop)
    (inside : ∀ f ∈ pre ++ (touched ++ post), first ≤ f.base ∧ f.endAddr ≤ stop) :
    first ≤ joined.base ∧ joined.endAddr ≤ stop := by
  have met : ∀ f ∈ touched, first ≤ f.base ∧ f.endAddr ≤ stop := fun f mem => inside f (by simp [mem])
  cases joins.touch with
  | alone => exact ⟨low, high⟩
  | left b => exact ⟨(met _ List.mem_cons_self).1, high⟩
  | right e => exact ⟨low, (met _ List.mem_cons_self).2⟩
  | both b e => exact ⟨(met ⟨b, p.base⟩ (by simp)).1, (met ⟨p.endAddr, e⟩ (by simp)).2⟩

theorem addFirst {p : Span} (v : View) (proper : p.Proper) (room : p.endAddr + 2 ^ 20 ≤ 2 ^ 64) :
    v.addList 0 p = (addNodes 0 p.base p.endAddr (p.endAddr - p.base) (v.lists (.free 0)) v.spare).map
      (fun r => (boundaries 0 r.merged p, {v.setList (.free 0) r.nodes with spare := r.spare})) := by
  unfold Extent.Proper at proper
  unfold View.addList
  simp only [alignUpIs 0 (by omega : p.base + 2 ^ 20 ≤ 2 ^ 64), upZero]
  rw [if_neg (by omega), minusExact proper.le (by omega)]

theorem addAll {p joined : Span} {pre touched post : List Span} {v' : View} (tiled : Tiled first stop v)
    (joins : Join p pre touched post joined) (proper : p.Proper) (room : stop + 2 ^ 20 ≤ 2 ^ 64)
    (split : v.spans (.free 0) = pre ++ (touched ++ post)) (low : first ≤ joined.base) (high : joined.endAddr ≤ stop)
    (done : v.add (List.finRange (mmMaxAlignment + 1)) p = (.ok (), v')) :
    v'.spans (.free 0) = pre ++ joined :: post ∧
      ∀ i, ListOk first stop (pre ++ joined :: post) i (v'.lists (.free i)) := by
  have sep : Separated (pre ++ (touched ++ post)) := split ▸ tiled.separated
  have sep' := joinSeparated joins proper sep
  have properJoined : joined.Proper := sep'.1 joined (by simp)
  obtain ⟨⟨_, reach⟩, _⟩ := touchInside joins.touch proper
    (separatedAppend.mp (separatedAppend.mp sep).2.1).1.1
  unfold Extent.Proper at properJoined
  rw [List.finRange_succ] at done
  unfold View.add at done
  split at done
  · cases done
  rename_i bounds v₁ added
  rw [addFirst v proper (by omega)] at added
  obtain ⟨r, nodes, made⟩ := Option.map_eq_some_iff.mp added
  cases made
  obtain ⟨same, grown⟩ := addUnit joins proper sep (by omega) split nodes
  rw [grown] at done
  have others : ∀ i ∈ (List.finRange mmMaxAlignment).map Fin.succ, ListOk first stop (pre ++ (touched ++ post)) i
      (({v.setList (.free 0) r.nodes with spare := r.spare} : View).lists (.free i)) := by
    intro i mem
    obtain ⟨j, _, rfl⟩ := List.mem_map.mp mem
    have here := tiled.lists j.succ
    rw [split] at here
    simpa [View.setList] using here
  obtain ⟨ok, frame⟩ := addLists joins proper sep low high room
    ((List.nodup_finRange _).map (Fin.succ_injective _)) (by simp) others done
  have zero : v'.spans (.free 0) = pre ++ joined :: post := by
    have here := frame 0 (by simp)
    rw [View.spans, here, ← same]
    simp [View.setList]
  refine ⟨zero, fun i => ?_⟩
  rcases Fin.eq_zero_or_eq_succ i with rfl | ⟨j, rfl⟩
  · left
    rw [upZero]
    refine ⟨by omega, ?_⟩
    rw [View.spans] at zero
    rw [zero]
    exact imageRefl sep'.1
  · exact ok _ (by simp)

theorem releasing {base : Nat} {busy : Node} {rest : List Node} (tiled : Tiled first stop v)
    (taken : takeBusy base (v.lists .busy) = some (busy, rest)) :
    busy.value.Proper ∧ ∃ pre touched post joined, v.spans (.free 0) = pre ++ (touched ++ post) ∧
      Join busy.value pre touched post joined ∧ first ≤ joined.base ∧ joined.endAddr ≤ stop := by
  have mem : busy.value ∈ v.spans .busy :=
    ((Kept.takeBusyPerm taken).map Node.value).mem_iff.mpr List.mem_cons_self
  have proper := tiled.proper _ mem
  obtain ⟨start, stop'⟩ := tiled.inside (List.mem_append_left _ mem) proper
  obtain ⟨pre, touched, post, joined, split, joins⟩ := joinExists tiled.separated
    (fun f free => (tiled.apart mem free).symm)
  exact ⟨proper, pre, touched, post, joined, split, joins,
    joinedInside joins start stop' (fun f free => tiled.freeInside (split ▸ free))⟩

theorem putStep {base : Nat} {out : Except Refusal Nat × View} (tiled : Tiled first stop v)
    (room : stop + 2 ^ 20 ≤ 2 ^ 64) (step : v.PutStep base out) (served : out.1 ≠ .error .noDescriptor) :
    Tiled first stop out.2 := by
  cases step with
  | notBusy none => exact tiled
  | addShort busy rest taken e v' failed => exact absurd rfl served
  | done busy rest taken v' added =>
    have perm := (Kept.takeBusyPerm taken).map Node.value
    obtain ⟨proper, pre, touched, post, joined, split, joins, low, high⟩ := tiled.releasing taken
    have sep : Separated (pre ++ (touched ++ post)) := split ▸ tiled.separated
    obtain ⟨⟨start, stop'⟩, _⟩ := touchInside joins.touch proper
      (separatedAppend.mp (separatedAppend.mp sep).2.1).1.1
    obtain ⟨zero, ok⟩ := tiled.addAll joins proper room split low high added
    have frame := View.addFrame (List.finRange (mmMaxAlignment + 1)) busy.value v
    rw [added] at frame
    have sum := joinTotal joins proper sep
    have within : ∀ f ∈ pre ++ joined :: post, first ≤ f.base ∧ f.endAddr ≤ stop := by
      intro f free
      rcases List.mem_append.mp free with free | free
      · exact tiled.freeInside (split ▸ List.mem_append_left _ free)
      · rcases List.mem_cons.mp free with rfl | free
        · exact ⟨low, high⟩
        · exact tiled.freeInside (split ▸ List.mem_append_right _ (List.mem_append_right _ free))
    have bound := separatedTotal (joinSeparated joins proper sep) within
    refine tiled.join joins proper split ?_ ?_ ?_ ?_ ?_
    · simpa [View.spans, View.setList] using zero
    · simpa [View.spans, spans, View.setList] using perm
    · have sorted := tiled.sorted.sublist ((takeBusySublist taken).map Node.value)
      simpa [View.spans, spans, View.setList] using sorted
    · intro i
      have here := ok i
      rw [← zero] at here
      simpa [View.spans, View.setList] using here
    · unfold Extent.Proper at proper
      change wrap 64 (v'.freeMemSize + minus 64 busy.value.endAddr busy.value.base) = _
      rw [frame.2.2, minusExact proper.le (by omega), tiled.freeMemSize, split]
      exact wrapSmall (by rw [Extent.length] at sum; omega)

end Tiled

variable {base size : Nat}

theorem firstSpanIs (room : base + size + 2 ^ 20 ≤ 2 ^ 64) (i : Index) :
    View.firstSpan base size i = if base + size < up i base then ⟨0, 0⟩ else ⟨up i base, base + size⟩ := by
  have above := leUp i base
  have below : up i base < base + alignment i := roundUpLt base (alignmentPos i)
  have large := alignmentLe i
  unfold View.firstSpan
  simp only [alignUpIs i (by omega : base + 2 ^ 20 ≤ 2 ^ 64)]
  rw [minusExact above (by omega)]
  split_ifs with short past past
  · rfl
  · omega
  · omega
  · rw [minusExact (by omega) (by omega), wrapSmall (by omega)]
    congr 1
    omega

variable {v v' : View}

theorem initListsSpans {lists : List Index} (nodup : lists.Nodup) (done : v.initLists base size lists = some v') :
    (∀ i ∈ lists, v'.spans (.free i) = [View.firstSpan base size i]) ∧
      (∀ i, i ∉ lists → v'.lists (.free i) = v.lists (.free i)) ∧
      v'.lists .busy = v.lists .busy ∧ v'.freeMemSize = v.freeMemSize := by
  induction lists generalizing v with
  | nil =>
    cases done
    exact ⟨by simp, fun _ _ => rfl, rfl, rfl⟩
  | cons i rest ih =>
    obtain ⟨fresh, nodupRest⟩ := List.nodup_cons.mp nodup
    unfold View.initLists at done
    split at done
    · cases done
    obtain ⟨later, frame, busy, free⟩ := ih nodupRest done
    refine ⟨?_, ?_, ?_, free⟩
    · intro j mem
      rcases List.mem_cons.mp mem with rfl | mem
      · rw [View.spans, frame j fresh]
        simp [View.setList, spans]
      · exact later j mem
    · intro j outside
      rw [List.mem_cons, not_or] at outside
      rw [frame j outside.2]
      exact Function.update_of_ne (fun eq => outside.1 (Which.free.inj eq)) _ _
    · rw [busy]
      simp [View.setList]

theorem initTiled {spare : List Nat} (room : base + size + 2 ^ 20 ≤ 2 ^ 64)
    (positive : 0 < size) (done : View.init base size spare = some v) : Tiled base (base + size) v := by
  unfold View.init at done
  simp only [] at done
  rw [if_neg (by omega)] at done
  obtain ⟨all, _, busy, free⟩ := initListsSpans (List.nodup_finRange _) done
  have none : v.spans .busy = [] := by simp [View.spans, spans, busy]
  have zero : v.spans (.free 0) = [⟨base, base + size⟩] := by
    rw [all 0 (List.mem_finRange _), firstSpanIs room, upZero, if_neg (by omega)]
  constructor
  · rw [zero]
    exact ⟨by simpa [Extent.Proper] using positive, List.pairwise_singleton _ _⟩
  · simp [none]
  · rw [none]
    exact .nil
  · intro x
    rw [none, zero, List.nil_append, hitsCons, hitsNil, Nat.zero_add]
  · intro i
    have here := all i (List.mem_finRange _)
    rw [firstSpanIs room] at here
    rw [zero]
    unfold ListOk
    rcases Nat.lt_trichotomy (up i base) (base + size) with live | same | past
    · left
      rw [if_neg (by omega)] at here
      refine ⟨live, ?_⟩
      rw [View.spans] at here
      rw [here]
      exact .keep live .nil
    · right
      rw [if_neg (by omega), same] at here
      exact ⟨same.ge, Or.inr here⟩
    · right
      rw [if_pos past] at here
      exact ⟨past.le, Or.inl here⟩
  · rw [zero, free]
    simp [total, Extent.length]

theorem callTiled {c : Call} (tiled : Tiled first stop v)
    (room : stop + 2 ^ 20 ≤ 2 ^ 64) (legal : c.Legal) (served : (v.call c).1 ≠ .error .noDescriptor) :
    Tiled first stop (v.call c).2 := by
  cases c with
  | get size align =>
    simp only [View.call, View.get] at served ⊢
    split_ifs at served ⊢
    · exact tiled
    all_goals exact tiled.getStep room legal (v.getStep size _) served
  | put base => exact tiled.putStep room (v.putStep base) served

def Mm.spans (s : Mm) (w : Which) : List Span := Slob.spans (s.blocks w)

theorem Rep.spansEq {origin : List Nat} {s : Mm} (rep : Rep origin s v) (w : Which) : s.spans w = v.spans w := by
  rw [Mm.spans, rep.blocksEq w]
  rfl

theorem reachedTiled {memory : Nat → SlobBlock} {boot boot' : InitialMemMng}
    {pool : BufferPool} {start s : Mm} (fresh : Fresh pool) (positive : 0 < size)
    (room : base + size + 2 ^ 20 ≤ 2 ^ 64)
    (init : slobInit memory base size boot pool = some (.ok start, boot')) (reached : Reached Served start s) :
    ∃ v, Rep pool.remaining s v ∧ Tiled base (base + size) v := by
  obtain ⟨v₀, done, rep₀⟩ := slobInitFollows fresh init
  refine reachedView (Tiled base (base + size)) rep₀ (initTiled room positive done) ?_ reached
  intro s v c rep tiled ok
  exact callTiled tiled room ok.1 (by rw [← (callFollows c rep).1]; exact ok.2)

theorem Tiled.granted {first stop size a : Nat} {i : Index} (tiled : Tiled first stop v)
    (room : stop + 2 ^ 20 ≤ 2 ^ 64) (positive : 1 ≤ size) (done : v.getAlignment size i = (.ok a, v')) :
    (∃ f ∈ v.spans (.free 0), a = up i f.base ∧ a + size ≤ f.endAddr) ∧
      (v'.spans .busy).Perm (⟨a, a + size⟩ :: v.spans .busy) := by
  have step := v.getStep size i
  rw [done] at step
  cases step with
  | done found search mem fits addr spare some v₁ cut =>
    obtain ⟨f, inside, value, below⟩ := tiled.found room mem positive fits
    have high := (tiled.freeInside inside).2
    have start : found.value.base = up i f.base := by rw [value]; rfl
    have frame := View.cutFrame found.value.base (wrap 64 (found.value.base + size))
      (List.finRange (mmMaxAlignment + 1))
      {v with held := ⟨addr, found.value.base, wrap 64 (found.value.base + size)⟩ :: v.held, spare := spare}
    rw [cut] at frame
    have busy : v₁.lists .busy = v.lists .busy := frame.2.1
    refine ⟨⟨f, inside, start, by omega⟩, ?_⟩
    rw [wrapSmall (by omega : found.value.base + size < 2 ^ 64)]
    have perm := (Kept.busyNodesPerm ⟨addr, found.value.base, found.value.base + size⟩ (v.lists .busy)).map
      Node.value
    simpa [View.spans, spans, View.setList, busy] using perm

theorem Tiled.grantedAny {first stop size align a : Nat} (tiled : Tiled first stop v)
    (room : stop + 2 ^ 20 ≤ 2 ^ 64) (positive : 1 ≤ size) (done : v.get size align = (.ok a, v')) :
    (v'.spans .busy).Perm (⟨a, a + size⟩ :: v.spans .busy) := by
  unfold View.get at done
  simp only [] at done
  split_ifs at done
  · cases done
  all_goals exact (tiled.granted room positive done).2

theorem regionTiled {memory : Nat → SlobBlock} {base size : Nat} {boot boot' : InitialMemMng}
    {pool : BufferPool} {start s : Mm} (fresh : Fresh pool) (positive : 0 < base ∧ 0 < size)
    (room : base + size + 2 ^ 20 < 2 ^ 64)
    (init : slobInit memory base size boot pool = some (.ok start, boot')) (reached : Reached Served start s) :
    (∀ x, hits (s.spans .busy ++ s.spans (.free 0)) x = if base ≤ x ∧ x < base + size then 1 else 0) ∧
      (s.spans .busy ++ s.spans (.free 0)).Pairwise Apart ∧
      (∀ b ∈ s.spans .busy ++ s.spans (.free 0), b.base < b.endAddr) ∧
      (s.spans (.free 0)).Pairwise (fun a b => a.base < b.base) ∧
      (s.spans .busy).Pairwise (fun a b => a.base < b.base) ∧
      (∀ a ∈ s.spans (.free 0), ∀ b ∈ s.spans (.free 0), a.endAddr ≠ b.base) ∧
      s.freeMemSize = total (s.spans (.free 0)) ∧
      ∀ size align a s', 1 ≤ size → slobGet s size align = (.ok a, s') →
        (s'.spans .busy).Perm (⟨a, a + size⟩ :: s.spans .busy) := by
  obtain ⟨v, rep, tiled⟩ := reachedTiled fresh positive.2 room.le init reached
  simp only [rep.spansEq, rep.freeMemSize]
  have proper : ∀ b ∈ v.spans .busy ++ v.spans (.free 0), b.base < b.endAddr := by
    intro b mem
    rcases List.mem_append.mp mem with busy | free
    · exact tiled.proper b busy
    · exact tiled.separated.1 b free
  refine ⟨tiled.tile, pairwiseApart tiled.once proper, proper, separatedSorted tiled.separated, tiled.sorted,
    separatedNoTouch tiled.separated, tiled.freeMemSize, ?_⟩
  intro size align a s' nonzero done
  obtain ⟨s₁, same, rep'⟩ := slobGetFollows size align rep
  obtain ⟨result, rfl⟩ := Prod.mk.inj (done.symm.trans same)
  rw [rep'.spansEq]
  exact tiled.grantedAny room.le nonzero (Prod.ext result.symm rfl)

theorem regionTiledSmall : ∃ start s, Mm.initial 4096 1000 60 = some start ∧ Reached Served start s ∧
    s.spans .busy = [⟨4096, 4106⟩, ⟨4160, 4260⟩] ∧ (s.spans .busy ++ s.spans (.free 0)).Pairwise Apart ∧
      s.freeMemSize = total (s.spans (.free 0)) := by
  obtain ⟨start, s, init, reached, busy⟩ := @runReaches 4096 1000 60 Served _
    (fun s => s.spans .busy = [⟨4096, 4106⟩, ⟨4160, 4260⟩]) _
    [.get 10 4, .get 100 64, .get 7 1, .put 4106] (by decide +kernel)
  obtain ⟨boot, done⟩ := initialDone init
  obtain ⟨_, apart, _, _, _, _, free, _⟩ :=
    regionTiled (by decide) ⟨by decide, by decide⟩ (by decide) done reached
  exact ⟨start, s, init, reached, busy, apart, free⟩

theorem getPower (v : View) (size : Nat) (i : Index) : v.get size (2 ^ i.val) = v.getAlignment size i := by
  have bound := Nat.lt_succ_iff.mp i.isLt
  unfold View.get
  rw [Nat.and_two_pow_sub_one_eq_mod, Nat.mod_self, if_neg (by simp)]
  simp only [(Nat.two_pow_pos i.val).ne', if_false, Nat.log2_two_pow, Nat.not_lt.mpr bound]
  congr 1
  exact Fin.ext (Nat.mod_eq_of_lt i.isLt)

theorem Tiled.offers {first stop size : Nat} {v : View} {i : Index} {f : Span} (tiled : Tiled first stop v)
    (room : stop + 2 ^ 20 ≤ 2 ^ 64) (inside : f ∈ v.spans (.free 0))
    (large : up i f.base + max size (2 ^ i.val) ≤ f.endAddr)
    (served : (v.getAlignment size i).1 ≠ .error .noDescriptor) : ∃ a, (v.getAlignment size i).1 = .ok a := by
  obtain ⟨low, high⟩ := tiled.freeInside inside
  have mono := upMono i low
  have pos : 0 < 2 ^ i.val := Nat.two_pow_pos _
  have wide : up i f.base + alignment i ≤ f.endAddr := by unfold alignment; omega
  rcases tiled.lists i with ⟨live, img⟩ | ⟨past, _⟩
  · have mem := imageLarge img inside wide
    have step := v.getStep size i
    generalize v.getAlignment size i = out at step served
    cases step with
    | noBlock none =>
      obtain ⟨n, here, value⟩ := List.mem_map.mp mem
      rcases none with nil | ⟨k, rest, list, dead⟩ | short
      · rw [nil] at here
        cases here
      · obtain ⟨g, _, same, lt⟩ := imageMem img (List.mem_map_of_mem (list ▸ List.mem_cons_self))
        rw [same] at dead
        simp only [image] at dead
        omega
      · have fits := short n here
        simp only [value, image] at fits
        rw [minusExact (by omega) (by omega)] at fits
        omega
    | noDescriptor => exact absurd rfl served
    | cutShort => exact absurd rfl served
    | done found => exact ⟨found.value.base, rfl⟩
  · omega

theorem alignmentListsAgree {memory : Nat → SlobBlock} {base size : Nat} {boot boot' : InitialMemMng}
    {pool : BufferPool} {start s : Mm} (fresh : Fresh pool) (positive : 0 < base ∧ 0 < size)
    (room : base + size + 2 ^ 20 ≤ 2 ^ 64)
    (init : slobInit memory base size boot pool = some (.ok start, boot')) (reached : Reached Served start s)
    (i : Index) :
    (∀ y ∈ s.spans (.free i), y.base < y.endAddr → ∃ f ∈ s.spans (.free 0), y = ⟨up i f.base, f.endAddr⟩) ∧
      (∀ f ∈ s.spans (.free 0), up i f.base + 2 ^ i.val ≤ f.endAddr →
        ⟨up i f.base, f.endAddr⟩ ∈ s.spans (.free i)) ∧
      (∀ n a s', 1 ≤ n → slobGet s n (2 ^ i.val) = (.ok a, s') →
        2 ^ i.val ∣ a ∧ ∃ f ∈ s.spans (.free 0), f.base ≤ a ∧ a + n ≤ f.endAddr) ∧
      ∀ n, 1 ≤ n → (slobGet s n (2 ^ i.val)).1 ≠ .error .noDescriptor →
        (∃ f ∈ s.spans (.free 0), up i f.base + max n (2 ^ i.val) ≤ f.endAddr) →
        returned (slobGet s n (2 ^ i.val)).1 ≠ 0 := by
  obtain ⟨v, rep, tiled⟩ := reachedTiled fresh positive.2 room init reached
  have called : ∀ n, (slobGet s n (2 ^ i.val)).1 = (v.getAlignment n i).1 := by
    intro n
    obtain ⟨s₁, same, _⟩ := slobGetFollows n (2 ^ i.val) rep
    rw [same, getPower]
  have granted : ∀ {n a}, 1 ≤ n → (slobGet s n (2 ^ i.val)).1 = .ok a →
      ∃ f ∈ v.spans (.free 0), a = up i f.base ∧ a + n ≤ f.endAddr := by
    intro n a nonzero done
    rw [called] at done
    exact (tiled.granted room nonzero (Prod.ext done rfl)).1
  simp only [rep.spansEq]
  refine ⟨?_, ?_, ?_, ?_⟩
  · intro y mem proper
    rcases tiled.lists i with ⟨_, img⟩ | ⟨_, empty⟩
    · obtain ⟨f, inside, same, _⟩ := imageMem img mem
      exact ⟨f, inside, same⟩
    · obtain ⟨n, here, rfl⟩ := List.mem_map.mp mem
      rcases emptyMem empty here with value | value <;> simp [value] at proper
  · intro f inside large
    obtain ⟨low, high⟩ := tiled.freeInside inside
    rcases tiled.lists i with ⟨_, img⟩ | ⟨past, _⟩
    · exact imageLarge img inside large
    · have mono := upMono i low
      have pos : 0 < 2 ^ i.val := Nat.two_pow_pos _
      omega
  · intro n a s' nonzero done
    obtain ⟨f, inside, rfl, below⟩ := granted nonzero (congrArg Prod.fst done)
    exact ⟨dvdRoundUp _ _, f, inside, leUp i f.base, below⟩
  · rintro n nonzero served ⟨f, inside, large⟩
    rw [called] at served
    obtain ⟨a, done⟩ := tiled.offers room inside large served
    rw [← called] at done
    obtain ⟨g, memG, rfl, _⟩ := granted nonzero done
    have low := (tiled.freeInside memG).1
    have above := leUp i g.base
    rw [done, returned]
    omega

theorem alignmentListsAgreeSmall : ∃ start s, Mm.initial 4096 1000 60 = some start ∧ Reached Served start s ∧
    s.spans (.free 0) = [⟨4106, 4160⟩, ⟨4260, 5096⟩] ∧ ⟨4288, 5096⟩ ∈ s.spans (.free 5) ∧
      returned (slobGet s 40 32).1 ≠ 0 := by
  obtain ⟨start, s, init, reached, free, served⟩ := @runReaches 4096 1000 60 Served _
    (fun s => s.spans (.free 0) = [⟨4106, 4160⟩, ⟨4260, 5096⟩] ∧ (slobGet s 40 32).1 ≠ .error .noDescriptor) _
    [.get 10 4, .get 100 64] (by decide +kernel)
  obtain ⟨boot, done⟩ := initialDone init
  obtain ⟨_, large, _, offers⟩ :=
    alignmentListsAgree (by decide) ⟨by decide, by decide⟩ (by decide) done reached 5
  refine ⟨start, s, init, reached, free, ?_, offers 40 (by decide) served ?_⟩
  · exact large ⟨4260, 5096⟩ (by simp [free]) (by decide)
  · exact ⟨⟨4260, 5096⟩, by simp [free], by decide⟩

theorem listDisagreesAtTheEnd : ∃ start s, Mm.initial (2 ^ 64 - 2 ^ 20) (2 ^ 20 - 1) 60 = some start ∧
    Reached Served start s ∧
      ∃ y ∈ s.spans (.free 1), y.base < y.endAddr ∧ ¬ ∃ f ∈ s.spans (.free 0), y = ⟨up 1 f.base, f.endAddr⟩ :=
  runReaches [.get (2 ^ 20 - 1) 1] (by decide)

end Flexbuild.Slob
