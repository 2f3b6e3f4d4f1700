import Flexbuild.SlobRefinement
import Mathlib.Algebra.BigOperators.Fin

/-! No descriptor is lost. The one way to lose descriptors is the insertion that follows a
dropped block in `add_free`; with blocks whose end is not below their base the two never happen
together, for any base, size and alignment. -/
namespace Flexbuild.Slob
open Words BootMemory Chains

def Span.Ordered (b : Span) : Prop := b.base ≤ b.endAddr ∧ b.endAddr < 2 ^ 64

def Ordered (xs : List Node) : Prop := ∀ n ∈ xs, n.value.Ordered

theorem orderedCons {n : Node} {xs : List Node} : Ordered (n :: xs) ↔ n.value.Ordered ∧ Ordered xs :=
  List.forall_mem_cons

theorem alignmentPos (i : Index) : 0 < alignment i := Nat.two_pow_pos _

theorem alignmentLe (i : Index) : alignment i ≤ 2 ^ 20 :=
  Nat.pow_le_pow_right (by omega) (Nat.lt_succ_iff.mp i.isLt)

theorem alignUpLt64 (address : Nat) (i : Index) : alignUp 64 address (alignment i) < 2 ^ 64 :=
  alignUpLt (by have := i.isLt; unfold mmMaxAlignment at this; omega)

theorem cutNodesKeeps {holdBase holdEnd : Nat} {i : Index} {xs xs' : List Node} {spare spare' : List Nat}
    (small : holdBase < 2 ^ 64) (ordered : Ordered xs)
    (done : cutNodes holdBase holdEnd i xs spare = some (xs', spare')) :
    bag (addrs xs') + bag spare' = bag (addrs xs) + bag spare ∧ Ordered xs' := by
  induction xs generalizing xs' spare' with
  | nil =>
    cases done
    exact ⟨rfl, ordered⟩
  | cons n rest ih =>
    obtain ⟨⟨le, lt⟩, others⟩ := orderedCons.mp ordered
    have aligned := alignUpLt64 holdEnd i
    unfold cutNodes at done
    simp only [] at done
    split_ifs at done with inside drop beyond left right right
    · cases done
      exact ⟨by simp only [addrsCons, bagCons]; abel, others⟩
    · cases done
      refine ⟨rfl, orderedCons.mpr ⟨⟨?_, lt⟩, others⟩⟩
      simp only [not_or, not_le] at drop
      exact drop.1.le
    · cases spare with
      | nil => cases done
      | cons new spare =>
        cases done
        refine ⟨by simp only [addrsCons, bagCons]; abel, ?_⟩
        have whole : wrap 64 (alignUp 64 holdEnd (alignment i) +
            minus 64 n.value.endAddr (alignUp 64 holdEnd (alignment i))) = n.value.endAddr :=
          wrapAddMinus lt aligned
        refine orderedCons.mpr ⟨⟨beyond.1.le, small⟩, orderedCons.mpr ⟨⟨?_, ?_⟩, others⟩⟩
        · rw [whole]
          exact right.1.le
        · rw [whole]
          exact lt
    · cases done
      exact ⟨rfl, orderedCons.mpr ⟨⟨beyond.1.le, small⟩, others⟩⟩
    · cases done
      exact ⟨rfl, orderedCons.mpr ⟨⟨right.1.le, lt⟩, others⟩⟩
    · cases done
      exact ⟨by simp only [addrsCons, bagCons]; abel, others⟩
    · obtain ⟨r, tail, made⟩ := Option.map_eq_some_iff.mp done
      cases made
      obtain ⟨same, keeps⟩ := ih others tail
      refine ⟨?_, orderedCons.mpr ⟨⟨le, lt⟩, keeps⟩⟩
      simp only [addrsCons, bagCons, add_assoc, same]

theorem eliminateNodesKeeps {endAddr : Nat} {n : Node} {rest : List Node} (spare : List Nat)
    (base : n.value.base ≤ endAddr) (small : endAddr < 2 ^ 64) (ordered : Ordered rest) :
    let r := eliminateNodes endAddr n rest spare
    bag (addrs (r.1 :: r.2.1)) + bag r.2.2 = bag (addrs (n :: rest)) + bag spare ∧
      Ordered (r.1 :: r.2.1) ∧ r.1.value.base = n.value.base ∧ endAddr ≤ r.1.value.endAddr := by
  induction rest generalizing spare with
  | nil => exact ⟨rfl, orderedCons.mpr ⟨⟨base, small⟩, ordered⟩, rfl, le_rfl⟩
  | cons k rest ih =>
    obtain ⟨⟨le, lt⟩, others⟩ := orderedCons.mp ordered
    unfold eliminateNodes
    split_ifs with covered clear
    · obtain ⟨same, keeps, first, last⟩ := ih (k.addr :: spare) others
      refine ⟨?_, keeps, first, last⟩
      rw [same]
      simp only [addrsCons, bagCons]
      abel
    · exact ⟨rfl, orderedCons.mpr ⟨⟨base, small⟩, ordered⟩, rfl, le_rfl⟩
    · refine ⟨?_, orderedCons.mpr ⟨⟨by simp only; omega, lt⟩, others⟩, rfl, by simp only; omega⟩
      simp only [addrsCons, bagCons]
      abel

theorem absorbNodesKeeps (i : Index) {alignBase endAddr size : Nat} {n : Node} {rest : List Node}
    (spare : List Nat) (below : alignBase < endAddr) (sized : size = endAddr - alignBase)
    (base : n.value.base ≤ endAddr) (last : endAddr ≤ n.value.endAddr) (ordered : Ordered (n :: rest)) :
    let r := absorbNodes i alignBase endAddr size n rest spare
    bag (addrs r.nodes) + bag r.spare = bag (addrs (n :: rest)) + bag spare ∧ Ordered r.nodes ∧
      ∀ b, r.merged = some b → b.Ordered := by
  obtain ⟨⟨le, lt⟩, others⟩ := orderedCons.mp ordered
  have drop : ∀ b : Span, b.base ≤ alignBase → b.endAddr = n.value.endAddr →
      minus 64 b.endAddr b.base < alignment i → ¬ alignment i ≤ size := by
    intro b low same small large
    rw [same, minusExact (by omega) lt] at small
    omega
  unfold absorbNodes
  simp only []
  split_ifs with grow small large small large
  · exact absurd large (drop ⟨alignBase, n.value.endAddr⟩ le_rfl rfl small)
  · refine ⟨by simp only [addrsCons, bagCons]; abel, others, by simp⟩
  · have fresh : Span.Ordered ⟨alignBase, n.value.endAddr⟩ := ⟨by simp only; omega, lt⟩
    exact ⟨rfl, orderedCons.mpr ⟨fresh, others⟩, by rintro b ⟨rfl⟩; exact fresh⟩
  · exact absurd large (drop n.value (by omega) rfl small)
  · refine ⟨by simp only [addrsCons, bagCons]; abel, others, by simp⟩
  · exact ⟨rfl, ordered, by rintro b ⟨rfl⟩; exact ⟨le, lt⟩⟩

variable {spare : List Nat}

theorem addNodesKeeps {i : Index} {alignBase endAddr size : Nat} {xs : List Node} {r : Added}
    (below : alignBase < endAddr) (small : endAddr < 2 ^ 64) (sized : size = endAddr - alignBase)
    (ordered : Ordered xs) (done : addNodes i alignBase endAddr size xs spare = some r) :
    bag (addrs r.nodes) + bag r.spare = bag (addrs xs) + bag spare ∧ Ordered r.nodes ∧
      ∀ b, r.merged = some b → b.Ordered := by
  have piece : wrap 64 (alignBase + size) = endAddr := by
    rw [sized, Nat.add_sub_cancel' below.le]
    exact wrapSmall small
  have pieceOrdered : Span.Ordered ⟨alignBase, wrap 64 (alignBase + size)⟩ := by
    rw [piece]
    exact ⟨below.le, small⟩
  induction xs generalizing r with
  | nil =>
    unfold addNodes at done
    split_ifs at done with large
    · cases spare with
      | nil => cases done
      | cons new spare =>
        cases done
        exact ⟨by simp only [addrsCons, addrsNil, bagCons, bagNil]; abel,
          orderedCons.mpr ⟨pieceOrdered, ordered⟩, by simp⟩
    · cases done
      exact ⟨rfl, ordered, by simp⟩
  | cons n rest ih =>
    obtain ⟨⟨le, lt⟩, others⟩ := orderedCons.mp ordered
    unfold addNodes at done
    split_ifs at done with reach longer before
    · have elim := eliminateNodesKeeps spare (n := n) (by omega : n.value.base ≤ endAddr) small others
      simp only [] at elim
      obtain ⟨same, keeps, first, last⟩ := elim
      generalize eliminateNodes endAddr n rest spare = out at done same keeps first last
      obtain ⟨n', rest', spare'⟩ := out
      cases done
      simp only [] at first last same keeps
      obtain ⟨same', keeps', merged⟩ := absorbNodesKeeps i spare' below sized (by omega) last keeps
      exact ⟨same'.trans same, keeps', merged⟩
    · cases spare with
      | nil => cases done
      | cons new spare =>
        cases done
        exact ⟨by simp only [addrsCons, bagCons]; abel, orderedCons.mpr ⟨pieceOrdered, ordered⟩, by simp⟩
    · cases done
      exact absorbNodesKeeps i spare below sized (by omega) (by omega) ordered
    · obtain ⟨r', tail, made⟩ := Option.map_eq_some_iff.mp done
      cases made
      obtain ⟨same, keeps, merged⟩ := ih others tail
      refine ⟨?_, orderedCons.mpr ⟨⟨le, lt⟩, keeps⟩, merged⟩
      simp only [addrsCons, bagCons, add_assoc, same]

structure Kept (origin : List Nat) (v : View) : Prop where
  ordered : ∀ w, Ordered (v.lists w)
  owned : v.owned = bag origin

namespace Kept
variable {origin : List Nat} {v : View}

theorem change (kept : Kept origin v) (w : Which) {xs : List Node} (held : List Node) (spare : List Nat)
    (ordered : Ordered xs)
    (same : bag (addrs xs) + bag (addrs held) + bag spare =
      bag (addrs (v.lists w)) + bag (addrs v.held) + bag v.spare) :
    Kept origin {v.setList w xs with held := held, spare := spare} where
  ordered u := by
    simp only [View.setList]
    by_cases eq : u = w
    · subst eq
      rw [Function.update_self]
      exact ordered
    · rw [Function.update_of_ne eq]
      exact kept.ordered u
  owned := by
    have split := v.ownedSplit w xs held spare
    rw [same] at split
    exact (add_right_cancel split).trans kept.owned

theorem changeFree (kept : Kept origin v) (i : Index) {xs : List Node} (ordered : Ordered xs)
    (same : bag (addrs xs) + bag spare = bag (addrs (v.lists (.free i))) + bag v.spare) :
    Kept origin {v.setList (.free i) xs with spare := spare} := by
  refine kept.change (.free i) v.held spare ordered ?_
  rw [add_right_comm, same, add_right_comm]

theorem cut {holdBase : Nat} (holdEnd : Nat) (lists : List Index) (small : holdBase < 2 ^ 64)
    (kept : Kept origin v) : Kept origin (v.cut holdBase holdEnd lists).2 := by
  induction lists generalizing v with
  | nil => exact kept
  | cons i rest ih =>
    unfold View.cut
    split
    · exact kept
    · rename_i nodes spare done
      obtain ⟨same, ordered⟩ := cutNodesKeeps small (kept.ordered (.free i)) done
      exact ih (kept.changeFree i ordered same)

theorem boundaries (i : Index) {merged : Option Span} {bounds : Span} (ordered : bounds.Ordered)
    (mergedOrdered : ∀ b, merged = some b → b.Ordered) : (boundaries i merged bounds).Ordered := by
  unfold Slob.boundaries
  cases merged with
  | none => exact ordered
  | some b =>
    obtain ⟨le, lt⟩ := mergedOrdered b rfl
    obtain ⟨le', lt'⟩ := ordered
    by_cases unit : alignment i = 1
    · simp only [unit, if_true, Span.Ordered]
      split_ifs <;> omega
    · simp only [unit, if_false]
      exact ⟨le', lt'⟩

theorem addList (i : Index) {bounds bounds' : Span} {v' : View} (ordered : bounds.Ordered)
    (kept : Kept origin v) (done : v.addList i bounds = some (bounds', v')) :
    Kept origin v' ∧ bounds'.Ordered := by
  unfold View.addList at done
  simp only [] at done
  split_ifs at done with outside
  · cases done
    exact ⟨kept, ordered⟩
  · obtain ⟨r, added, made⟩ := Option.map_eq_some_iff.mp done
    cases made
    have below := Nat.lt_of_not_le outside
    obtain ⟨same, nodes, merged⟩ := addNodesKeeps below ordered.2 (minusExact below.le ordered.2)
      (kept.ordered (.free i)) added
    exact ⟨kept.changeFree i nodes same, boundaries i ordered merged⟩

theorem add (lists : List Index) {bounds : Span} (ordered : bounds.Ordered) (kept : Kept origin v) :
    Kept origin (v.add lists bounds).2 := by
  induction lists generalizing v bounds with
  | nil => exact kept
  | cons i rest ih =>
    unfold View.add
    split
    · exact kept
    · rename_i bounds' v' done
      obtain ⟨kept', ordered'⟩ := kept.addList i ordered done
      exact ih ordered' kept'

theorem busyNodesPerm (new : Node) (xs : List Node) : (busyNodes new xs).Perm (new :: xs) := by
  induction xs with
  | nil => exact List.Perm.refl _
  | cons n rest ih =>
    unfold busyNodes
    split_ifs
    · exact (ih.cons n).trans (List.Perm.swap _ _ _)
    · exact List.Perm.refl _

theorem takeBusyPerm {base : Nat} {xs rest : List Node} {n : Node} (taken : takeBusy base xs = some (n, rest)) :
    xs.Perm (n :: rest) := by
  induction xs generalizing rest with
  | nil => cases taken
  | cons k xs ih =>
    unfold takeBusy at taken
    split_ifs at taken with other
    · obtain ⟨⟨n', rest'⟩, tail, made⟩ := Option.map_eq_some_iff.mp taken
      cases made
      exact ((ih tail).cons k).trans (List.Perm.swap _ _ _)
    · cases taken
      exact List.Perm.refl _

theorem bagPerm {xs ys : List Node} (perm : xs.Perm ys) : bag (addrs xs) = bag (addrs ys) :=
  Multiset.coe_eq_coe.mpr (perm.map _)

theorem orderedPerm {xs ys : List Node} (perm : xs.Perm ys) (ordered : Ordered ys) : Ordered xs :=
  fun n mem => ordered n (perm.mem_iff.mp mem)

theorem take (kept : Kept origin v) (n : Node) (some : v.spare = n.addr :: spare) :
    Kept origin {v with held := n :: v.held, spare := spare} := by
  have step := kept.change .busy (n :: v.held) spare (kept.ordered .busy)
    (by simp only [some, addrsCons, bagCons]; abel)
  rwa [Rep.setSame] at step

theorem getStep {size : Nat} {i : Index} {out : Except Refusal Nat × View} (kept : Kept origin v)
    (step : v.GetStep size i out) : Kept origin out.2 := by
  cases step with
  | noBlock none => exact kept
  | noDescriptor found search mem fits empty => exact kept
  | cutShort found search mem fits addr spare some e v' failed =>
    obtain ⟨_, lt⟩ := kept.ordered _ _ mem
    have after := (kept.take ⟨addr, found.value.base, wrap 64 (found.value.base + size)⟩ some).cut
      (wrap 64 (found.value.base + size)) (List.finRange (mmMaxAlignment + 1))
      (by omega : found.value.base < 2 ^ 64)
    have frame := View.cutFrame found.value.base (wrap 64 (found.value.base + size))
      (List.finRange (mmMaxAlignment + 1))
      {v with held := ⟨addr, found.value.base, wrap 64 (found.value.base + size)⟩ :: v.held, spare := spare}
    rw [failed] at after frame
    have step := after.change .busy v.held (addr :: v'.spare) (after.ordered .busy)
      (by rw [frame.1]; simp only [addrsCons, bagCons]; abel)
    rwa [Rep.setSame] at step
  | done found search mem fits addr spare some v' cut =>
    obtain ⟨le, lt⟩ := kept.ordered _ _ mem
    rw [minusExact le lt] at fits
    have after := (kept.take ⟨addr, found.value.base, wrap 64 (found.value.base + size)⟩ some).cut
      (wrap 64 (found.value.base + size)) (List.finRange (mmMaxAlignment + 1))
      (by omega : found.value.base < 2 ^ 64)
    have frame := View.cutFrame found.value.base (wrap 64 (found.value.base + size))
      (List.finRange (mmMaxAlignment + 1))
      {v with held := ⟨addr, found.value.base, wrap 64 (found.value.base + size)⟩ :: v.held, spare := spare}
    rw [cut] at after frame
    have new : Span.Ordered ⟨found.value.base, wrap 64 (found.value.base + size)⟩ := by
      rw [wrapSmall (by omega)]
      exact ⟨by simp only; omega, by simp only; omega⟩
    have perm := busyNodesPerm ⟨addr, found.value.base, wrap 64 (found.value.base + size)⟩ (v'.lists .busy)
    have step := after.change .busy v.held v'.spare
      (orderedPerm perm (orderedCons.mpr ⟨new, after.ordered .busy⟩))
      (by rw [bagPerm perm, frame.1]; simp only [addrsCons, bagCons]; abel)
    exact ⟨step.ordered, step.owned⟩

theorem putStep {base : Nat} {out : Except Refusal Nat × View} (kept : Kept origin v)
    (step : v.PutStep base out) : Kept origin out.2 := by
  have found : ∀ {busy rest}, takeBusy base (v.lists .busy) = some (busy, rest) → busy.value.Ordered :=
    fun taken => kept.ordered .busy _ ((takeBusyPerm taken).mem_iff.mpr List.mem_cons_self)
  cases step with
  | notBusy none => exact kept
  | addShort busy rest taken e v' failed =>
    have after := kept.add (List.finRange (mmMaxAlignment + 1)) (found taken)
    rwa [failed] at after
  | done busy rest taken v' added =>
    have perm := takeBusyPerm taken
    have after := kept.add (List.finRange (mmMaxAlignment + 1)) (found taken)
    have frame := View.addFrame (List.finRange (mmMaxAlignment + 1)) busy.value v
    rw [added] at after frame
    have others : Ordered rest := fun n mem => kept.ordered .busy n (perm.mem_iff.mpr (List.mem_cons_of_mem _ mem))
    have step := after.change .busy v'.held (busy.addr :: v'.spare) others
      (by rw [frame.2.1, bagPerm perm]; simp only [addrsCons, bagCons]; abel)
    exact ⟨step.ordered, step.owned⟩

theorem call (c : Call) (kept : Kept origin v) : Kept origin (v.call c).2 := by
  cases c with
  | get size align =>
    simp only [View.call, View.get]
    split_ifs
    · exact kept
    all_goals exact kept.getStep (v.getStep size _)
  | put base => exact kept.putStep (v.putStep base)

end Kept

variable {base size : Nat}

theorem firstSpanOrdered (small : base + size < 2 ^ 64) (i : Index) : (View.firstSpan base size i).Ordered := by
  have bound : i.val ≤ 64 := by have := i.isLt; unfold mmMaxAlignment at this; omega
  unfold View.firstSpan
  simp only []
  split_ifs with outside
  · exact ⟨le_rfl, Nat.two_pow_pos _⟩
  rcases Nat.lt_or_ge (2 ^ 64) (base + alignment i) with beyond | room
  · -- the first aligned address is past the end of the address space
    rw [alignment, alignUpWrapped bound (by omega) beyond] at outside
    rcases Nat.eq_zero_or_pos base with rfl | positive
    · have := alignmentLe i
      omega
    · rw [minusBorrow positive (by omega)] at outside
      omega
  · rw [alignment, alignUpExact bound room]
    rw [alignment, alignUpExact bound room] at outside
    have low := leRoundUp base (alignmentPos i)
    have high := roundUpLt base (alignmentPos i)
    unfold alignment at low high room
    rw [minusExact low (by omega)] at outside ⊢
    rw [minusExact (by omega) (by omega), wrapSmall (by omega)]
    exact ⟨by simp only; omega, by simp only; omega⟩

theorem initListsKept {origin : List Nat} (small : base + size < 2 ^ 64) {lists : List Index}
    {v v' : View} (kept : Kept origin v) (empty : ∀ i ∈ lists, v.lists (.free i) = []) (nodup : lists.Nodup)
    (done : v.initLists base size lists = some v') : Kept origin v' := by
  induction lists generalizing v with
  | nil =>
    cases done
    exact kept
  | cons i rest ih =>
    unfold View.initLists at done
    split at done
    · cases done
    rename_i addr spare some
    refine ih (kept.changeFree i ?_ ?_) ?_ (List.nodup_cons.mp nodup).2 done
    · exact orderedCons.mpr ⟨firstSpanOrdered small i, by simp [Ordered]⟩
    · simp [empty i List.mem_cons_self, some]
    · intro j mem
      have ne : Which.free j ≠ Which.free i := by
        rintro eq
        cases eq
        exact (List.nodup_cons.mp nodup).1 mem
      simp [View.setList, Function.update_of_ne ne, empty j (List.mem_cons_of_mem _ mem)]

theorem initKept {v : View} (small : base + size < 2 ^ 64)
    (done : View.init base size spare = some v) : Kept spare v := by
  have start : Kept spare ⟨fun _ => [], [], spare, size⟩ := ⟨by simp [Ordered], by simp [View.owned]⟩
  unfold View.init at done
  simp only [] at done
  split_ifs at done
  · cases done
    exact start
  · exact initListsKept small start (fun _ _ => rfl) (List.nodup_finRange _) done

theorem initListsHeld {lists : List Index} {v v' : View}
    (done : v.initLists base size lists = some v') : v'.held = v.held := by
  induction lists generalizing v with
  | nil =>
    cases done
    rfl
  | cons i rest ih =>
    unfold View.initLists at done
    split at done
    · cases done
    · have next := ih done
      exact next

theorem initHeld {v : View} (done : View.init base size spare = some v) : v.held = [] := by
  unfold View.init at done
  simp only [] at done
  split_ifs at done
  · cases done
    rfl
  · exact initListsHeld done

def Mm.linked (s : Mm) : List Nat :=
  addrs (s.blocks .busy) ++ (List.finRange (mmMaxAlignment + 1)).flatMap (fun i => addrs (s.blocks (.free i)))

theorem sumWhich (f : Which → Multiset Nat) :
    ∑ w, f w = f .busy + ((List.finRange (mmMaxAlignment + 1)).map (fun i => f (.free i))).sum := by
  have all : (Finset.univ : Finset Which) =
      insert .busy (Finset.univ.map ⟨Which.free, fun _ _ => Which.free.inj⟩) := by decide
  rw [all, Finset.sum_insert (by simp), Finset.sum_map, Fin.sum_univ_def]
  rfl

theorem bagFlatMap {α : Type*} (f : α → List Nat) (xs : List α) :
    bag (xs.flatMap f) = (xs.map (fun a => bag (f a))).sum := by
  induction xs with
  | nil => rfl
  | cons a rest ih => simp [ih]

theorem heldCall (v : View) (c : Call) : (v.call c).2.held = v.held := by
  have aligned : ∀ size i, (v.getAlignment size i).2.held = v.held := by
    intro size i
    have step := v.getStep size i
    generalize v.getAlignment size i = out at step
    cases step <;> rfl
  cases c with
  | get size align =>
    simp only [View.call, View.get]
    split_ifs
    · rfl
    all_goals exact aligned size _
  | put base =>
    have step := v.putStep base
    change (v.put base).2.held = v.held
    generalize v.put base = out at step
    cases step with
    | notBusy none => rfl
    | addShort busy rest taken e v' failed =>
      have frame := View.addFrame (List.finRange (mmMaxAlignment + 1)) busy.value v
      rw [failed] at frame
      exact frame.1
    | done busy rest taken v' added =>
      have frame := View.addFrame (List.finRange (mmMaxAlignment + 1)) busy.value v
      rw [added] at frame
      exact frame.1

theorem descriptorsConserved {memory : Nat → SlobBlock} {base size : Nat} {boot boot' : InitialMemMng}
    {pool : BufferPool} {start s : Mm} (fresh : Fresh pool) (small : base + size < 2 ^ 64)
    (init : slobInit memory base size boot pool = some (.ok start, boot')) (reached : Reached Served start s) :
    s.linked.Nodup ∧ s.linked.length = s.pool.current ∧ (s.linked ++ s.pool.remaining).Perm pool.remaining := by
  obtain ⟨v₀, done, rep₀⟩ := slobInitFollows fresh init
  obtain ⟨v, rep, kept, held⟩ := reachedView (fun v => Kept pool.remaining v ∧ v.held = []) rep₀
    ⟨initKept small done, initHeld done⟩
    (fun _ v c _ keeps _ => ⟨keeps.1.call c, (heldCall v c).trans keeps.2⟩) reached
  have perm : (s.linked ++ s.pool.remaining).Perm pool.remaining := by
    apply Multiset.coe_eq_coe.mp
    change bag (s.linked ++ s.pool.remaining) = bag pool.remaining
    rw [← kept.owned, View.owned, sumWhich, held, rep.remaining, Mm.linked]
    simp only [bagAppend, bagFlatMap, rep.blocksEq, addrsNil, bagNil, add_zero]
  have count := perm.length_eq
  have total := rep.size
  have inside := rep.inside
  have left : s.pool.remaining.length = s.pool.numBuffs - s.pool.current := by simp [BufferPool.remaining]
  rw [List.length_append] at count
  exact ⟨(List.nodup_append.mp (perm.nodup_iff.mpr fresh.nodup)).1, by omega, perm⟩

theorem descriptorsConservedSmall : ∃ start s, Mm.initial 4096 1000 60 = some start ∧ Reached Served start s ∧
    s.pool.current = 27 ∧ s.linked.length = s.pool.current ∧
      (s.linked ++ s.pool.remaining).Perm (smallPool 60).remaining := by
  obtain ⟨start, s, init, reached, current⟩ := @runReaches 4096 1000 60 Served _
    (fun s => s.pool.current = 27) _ [.get 10 4, .get 100 64, .put 4096] (by decide +kernel)
  obtain ⟨boot, done⟩ := initialDone init
  obtain ⟨_, count, perm⟩ := descriptorsConserved (by decide) (by decide) done reached
  exact ⟨start, s, init, reached, current, count, perm⟩

theorem descriptorLostPastTheEnd : Fresh (smallPool 200) ∧
    ∃ start s, Mm.initial (2 ^ 64 - 4) 31 200 = some start ∧ Reached Served start s ∧
      s.linked.length ≠ s.pool.current :=
  ⟨by decide +kernel,
    runReaches [.get 3 2, .put (2 ^ 64 - 4), .get 3 2, .get 5 2, .get 34 2, .put 0] (by decide +kernel)⟩

end Flexbuild.Slob
