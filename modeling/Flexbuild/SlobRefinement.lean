import Flexbuild.SlobLists

/-! The functions on memory refine the functions on lists. `Rep` says that a view is
what the linked descriptors of a state spell out, and that every descriptor of the
pool is in at most one place; the latter is what lets a write to one list leave all
other lists alone. -/
namespace Flexbuild.Slob
open Words BootMemory Chains

@[simp] theorem layoutNext (b : SlobBlock) : layout.next b = b.nextAddr := rfl

def bag (xs : List Nat) : Multiset Nat := xs

@[simp] theorem bagNil : bag [] = 0 := rfl

@[simp] theorem bagCons (a : Nat) (xs : List Nat) : bag (a :: xs) = {a} + bag xs := rfl

@[simp] theorem bagAppend (xs ys : List Nat) : bag (xs ++ ys) = bag xs + bag ys :=
  (Multiset.coe_add xs ys).symm

theorem memBag {a : Nat} {xs : List Nat} : a ∈ bag xs ↔ a ∈ xs := Multiset.mem_coe

def View.owned (v : View) : Multiset Nat :=
  (∑ w, bag (addrs (v.lists w))) + bag (addrs v.held) + bag v.spare

structure Rep (origin : List Nat) (s : Mm) (v : View) : Prop where
  chain : ∀ w, Seg layout s.memory (s.head w) (v.lists w) 0
  held : ∀ n ∈ v.held, s.memory n.addr = ⟨n.value.base, n.value.endAddr, 0⟩
  freeMemSize : s.freeMemSize = v.freeMemSize
  inside : s.pool.current ≤ s.pool.numBuffs
  remaining : s.pool.remaining = v.spare
  size : s.pool.numBuffs = origin.length
  nodup : origin.Nodup
  nonzero : 0 ∉ origin
  owned : v.owned ≤ bag origin

namespace View
variable {v : View}

theorem ownedSplit (v : View) (w : Which) (xs : List Node) (held : List Node) (spare : List Nat) :
    ({v.setList w xs with held := held, spare := spare} : View).owned +
        (bag (addrs (v.lists w)) + bag (addrs v.held) + bag v.spare) =
      v.owned + (bag (addrs xs) + bag (addrs held) + bag spare) := by
  have before := Finset.add_sum_erase Finset.univ (fun u => bag (addrs (v.lists u))) (Finset.mem_univ w)
  have after := Finset.add_sum_erase Finset.univ
    (fun u => bag (addrs (Function.update v.lists w xs u))) (Finset.mem_univ w)
  have same : ∑ u ∈ Finset.univ.erase w, bag (addrs (Function.update v.lists w xs u)) =
      ∑ u ∈ Finset.univ.erase w, bag (addrs (v.lists u)) := by
    apply Finset.sum_congr rfl
    intro u mem
    rw [Function.update_of_ne (Finset.ne_of_mem_erase mem)]
  simp only [Function.update_self, same] at after
  simp only [owned, setList, ← before, ← after]
  abel

theorem listLeOwned (v : View) (w : Which) :
    bag (addrs (v.lists w)) + bag (addrs v.held) + bag v.spare ≤ v.owned := by
  unfold owned
  gcongr
  exact Finset.single_le_sum_of_canonicallyOrdered (f := fun u => bag (addrs (v.lists u)))
    (Finset.mem_univ w)

theorem pairLeOwned (v : View) {w u : Which} (ne : w ≠ u) :
    bag (addrs (v.lists w)) + bag (addrs (v.lists u)) ≤ v.owned := by
  have pair := Finset.sum_le_sum_of_subset (f := fun u => bag (addrs (v.lists u)))
    (Finset.subset_univ {w, u})
  rw [Finset.sum_pair ne] at pair
  exact pair.trans (by unfold owned; exact (Multiset.le_add_right _ _).trans (Multiset.le_add_right _ _))

end View

theorem apartOfNodup {xs ys : List Nat} {m : Multiset Nat} (le : bag xs + bag ys ≤ m) (nodup : m.Nodup)
    {p : Nat} (left : p ∈ xs) (right : p ∈ ys) : False := by
  have both := (Multiset.nodup_add.mp (Multiset.nodup_of_le le nodup)).2.2
  exact Multiset.disjoint_left.mp both (memBag.mpr left) (memBag.mpr right)

variable {w : Which}

theorem Mm.linkElsewhere (s : Mm) {xs pre post : List Node} {x p : Nat}
    (split : xs = pre ++ post) (other : p ∉ addrs xs) :
    (s.link w (lastAddr pre) x).memory p = s.memory p := by
  apply relinkElsewhere
  rcases lastAddrMem pre with zero | mem
  · exact Or.inr zero
  · left
    rintro rfl
    exact other (by rw [split, addrsAppend]; exact List.mem_append_left _ mem)

theorem Mm.linkWrite (s : Mm) (w : Which) {prev : Nat} (x : Nat) (b : SlobBlock) (nonzero : prev ≠ 0) :
    (s.link w prev x).writeBlock prev b = s.writeBlock prev b := by
  simp [Mm.link, Mm.writeBlock, relink, nonzero]

theorem Mm.writeNextSame (s : Mm) {a x : Nat} (same : (s.memory a).nextAddr = x) : s.writeNext a x = s := by
  simp [Mm.writeNext, Mm.writeBlock, ← same]

namespace Rep
variable {origin : List Nat} {s s' : Mm} {v : View}

theorem ownedNodup (rep : Rep origin s v) : v.owned.Nodup :=
  Multiset.nodup_of_le rep.owned rep.nodup

theorem nodupList (rep : Rep origin s v) (w : Which) : (addrs (v.lists w)).Nodup := by
  have le := (v.listLeOwned w).trans rep.owned
  rw [add_assoc] at le
  exact (Multiset.nodup_add.mp (Multiset.nodup_of_le le rep.nodup)).1

theorem lengthLt (rep : Rep origin s v) (w : Which) : (v.lists w).length < s.fuel := by
  have le := Multiset.card_le_card ((v.listLeOwned w).trans rep.owned)
  simp only [bag, Multiset.card_add, Multiset.coe_card, addrsLength] at le
  have size := rep.size
  unfold Mm.fuel
  omega

theorem blocksEq (rep : Rep origin s v) (w : Which) : s.blocks w = v.lists w :=
  walkSeg (rep.chain w) (rep.lengthLt w).le

theorem change (rep : Rep origin s v) (w : Which) (xs held : List Node) (spare : List Nat)
    (chain : Seg layout s'.memory (s'.head w) xs 0)
    (heads : ∀ u, u ≠ w → s'.head u = s.head u)
    (frame : ∀ p, p ∉ addrs (v.lists w) → p ∉ addrs v.held → p ∉ v.spare → s'.memory p = s.memory p)
    (heldOk : ∀ n ∈ held, s'.memory n.addr = ⟨n.value.base, n.value.endAddr, 0⟩)
    (freeMemSize : s'.freeMemSize = s.freeMemSize)
    (inside : s'.pool.current ≤ s'.pool.numBuffs) (remaining : s'.pool.remaining = spare)
    (size : s'.pool.numBuffs = s.pool.numBuffs)
    (owned : bag (addrs xs) + bag (addrs held) + bag spare ≤
      bag (addrs (v.lists w)) + bag (addrs v.held) + bag v.spare) :
    Rep origin s' {v.setList w xs with held := held, spare := spare} where
  chain u := by
    simp only [View.setList]
    by_cases eq : u = w
    · subst eq
      rw [Function.update_self]
      exact chain
    · rw [Function.update_of_ne eq, heads u eq]
      apply segFrame _ (rep.chain u)
      intro p mem
      have nodup := rep.ownedNodup
      have all := v.listLeOwned u
      apply frame
      · exact fun other => apartOfNodup (v.pairLeOwned eq) nodup mem other
      · exact fun other => apartOfNodup ((Multiset.le_add_right _ _).trans all) nodup mem other
      · rw [add_assoc, add_comm (bag (addrs v.held)), ← add_assoc] at all
        exact fun other => apartOfNodup ((Multiset.le_add_right _ _).trans all) nodup mem other
  held := heldOk
  freeMemSize := freeMemSize.trans rep.freeMemSize
  inside := inside
  remaining := remaining
  size := size.trans rep.size
  nodup := rep.nodup
  nonzero := rep.nonzero
  owned := by
    have split := v.ownedSplit w xs held spare
    have le := add_le_add_right owned v.owned
    rw [← split] at le
    exact (le_of_add_le_add_right le).trans rep.owned

theorem heldApart (rep : Rep origin s v) {p : Nat} {k : Node} (mem : p ∈ addrs (v.lists w))
    (held : k ∈ v.held) : k.addr ≠ p := by
  rintro rfl
  exact apartOfNodup ((Multiset.le_add_right _ _).trans (v.listLeOwned w)) rep.ownedNodup mem
    (List.mem_map.mpr ⟨k, held, rfl⟩)

theorem spareApart (rep : Rep origin s v) {p : Nat} (mem : p ∈ v.spare) :
    p ∉ addrs (v.lists w) ∧ p ∉ addrs v.held := by
  have le := v.listLeOwned w
  constructor
  · rw [add_assoc, add_comm (bag (addrs v.held)), ← add_assoc] at le
    exact fun other => apartOfNodup ((Multiset.le_add_right _ _).trans le) rep.ownedNodup other mem
  · rw [add_assoc] at le
    exact fun other => apartOfNodup ((Multiset.le_add_left _ _).trans le) rep.ownedNodup other mem

theorem takenPos (rep : Rep origin s v) (some : v.lists w ≠ [] ∨ v.held ≠ []) : 0 < s.pool.current := by
  have le := Multiset.card_le_card ((v.listLeOwned w).trans rep.owned)
  simp only [bag, Multiset.card_add, Multiset.coe_card, addrsLength] at le
  have count := congrArg List.length rep.remaining
  simp only [BufferPool.remaining, List.length_map, List.length_range'] at count
  have positive : 0 < (v.lists w).length + v.held.length := by
    rcases some with some | some
    · have := List.length_pos_of_ne_nil some
      omega
    · have := List.length_pos_of_ne_nil some
      omega
  have size := rep.size
  have inside := rep.inside
  omega

theorem putSpec (rep : Rep origin s v) (a : Nat) (taken : 0 < s.pool.current) :
    (s.putBlock a).pool.remaining = a :: v.spare ∧
      (s.putBlock a).pool.numBuffs = s.pool.numBuffs ∧
      (s.putBlock a).pool.current ≤ (s.putBlock a).pool.numBuffs := by
  obtain ⟨p, put, remaining, size, _, inside⟩ := buffPoolPutOk a taken rep.inside
  simp only [Mm.putBlock, put, Except.toOption, Option.getD_some]
  exact ⟨by rw [remaining, rep.remaining], size, inside⟩

theorem createNone (rep : Rep origin s v) (base size : Nat) (empty : v.spare = []) :
    s.createNewBlock base size = none := by
  simp [Mm.createNewBlock, buffPoolGetNone rep.inside (rep.remaining.trans empty)]

variable {pre post : List Node} {n : Node} {b : SlobBlock}

theorem writeNode (rep : Rep origin s v)
    (split : v.lists w = pre ++ n :: post) (next : b.nextAddr = (s.memory n.addr).nextAddr) :
    Rep origin (s.writeBlock n.addr b) (v.setList w (pre ++ ⟨n.addr, b.base, b.endAddr⟩ :: post)) := by
  have chain := rep.chain w
  have nodup := rep.nodupList w
  rw [split] at chain nodup
  have mem : n.addr ∈ addrs (v.lists w) := by simp [split]
  refine rep.change w _ v.held v.spare ?_ (fun u _ => rfl) ?_ ?_ rfl rep.inside rep.remaining rfl ?_
  · exact segWrite chain nodup next
  · intro p outside _ _
    exact Function.update_of_ne (fun eq => outside (by rw [eq]; exact mem)) _ _
  · intro k held
    exact (Function.update_of_ne (rep.heldApart mem held) _ _).trans (rep.held k held)
  · simp [split]

theorem unlinkNode (rep : Rep origin s v) (split : v.lists w = pre ++ n :: post) :
    Rep origin ((s.link w (lastAddr pre) (s.memory n.addr).nextAddr).putBlock n.addr)
      {v.setList w (pre ++ post) with spare := n.addr :: v.spare} := by
  have chain := rep.chain w
  have nodup := rep.nodupList w
  rw [split] at chain nodup
  obtain ⟨remaining, size, inside⟩ := rep.putSpec n.addr (rep.takenPos (w := w) (Or.inl (by simp [split])))
  refine rep.change w _ v.held _ ?_ ?_ ?_ ?_ rfl inside remaining size ?_
  · simp only [Mm.putBlock, Mm.link, Function.update_self]
    exact segUnlink chain nodup
  · intro u ne
    exact Function.update_of_ne ne _ _
  · intro p outside _ _
    exact s.linkElsewhere split outside
  · intro k held
    have outside : k.addr ∉ addrs (v.lists w) := fun mem => rep.heldApart mem held rfl
    exact (s.linkElsewhere split outside).trans (rep.held k held)
  · simp only [split, addrsAppend, addrsCons, bagAppend, bagCons]
    exact le_of_eq (by abel)

theorem scribble (rep : Rep origin s v) {a : Nat} (mem : a ∈ v.spare) : Rep origin (s.writeBlock a b) v := by
  have other : ∀ p, p ≠ a → (s.writeBlock a b).memory p = s.memory p :=
    fun p ne => Function.update_of_ne ne _ _
  refine {rep with chain := fun w => ?_, held := fun k held => ?_}
  · apply segFrame _ (rep.chain w)
    rintro p inside
    exact other p (fun eq => (rep.spareApart mem).1 (eq ▸ inside))
  · refine (other _ ?_).trans (rep.held k held)
    exact fun eq => (rep.spareApart (w := .busy) mem).2 (eq ▸ List.mem_map.mpr ⟨k, held, rfl⟩)

theorem setSame (v : View) (w : Which) : v.setList w (v.lists w) = v := by
  simp [View.setList]

theorem hold (rep : Rep origin s v) (base size : Nat) {a : Nat} {spare : List Nat}
    (some : v.spare = a :: spare) :
    ∃ s', s.createNewBlock base size = .some (a, s') ∧ s'.head = s.head ∧ s'.fuel = s.fuel ∧
      (∀ p, p ≠ a → s'.memory p = s.memory p) ∧
      Rep origin s' {v with held := ⟨a, base, wrap 64 (base + size)⟩ :: v.held, spare := spare} := by
  obtain ⟨p, get, remaining, num, _, inside⟩ := buffPoolGetSome (rep.remaining.trans some)
  have mem : a ∈ v.spare := by simp [some]
  refine ⟨{s with pool := p}.writeBlock a ⟨base, wrap 64 (base + size), 0⟩,
    by simp [Mm.createNewBlock, get], rfl, ?_, ?_, ?_⟩
  · simp [Mm.fuel, Mm.writeBlock, num]
  · intro q ne
    exact Function.update_of_ne ne _ _
  · have step : Rep origin ({s with pool := p}.writeBlock a ⟨base, wrap 64 (base + size), 0⟩)
        {v.setList .busy (v.lists .busy) with
          held := ⟨a, base, wrap 64 (base + size)⟩ :: v.held, spare := spare} := by
      refine rep.change .busy _ _ spare ((rep.scribble mem).chain .busy) (fun u _ => rfl) ?_ ?_ rfl inside
        remaining num ?_
      · exact fun q _ _ outside => Function.update_of_ne (fun eq => outside (by rw [eq]; exact mem)) _ _
      · intro k held
        rcases List.mem_cons.mp held with rfl | held
        · exact Function.update_self _ _ _
        · exact (rep.scribble mem).held k held
      · simp only [addrsCons, bagCons, some]
        exact le_of_eq (by abel)
    rwa [setSame] at step

theorem release (rep : Rep origin s v) {n : Node} {held : List Node} (some : v.held = n :: held) :
    Rep origin (s.putBlock n.addr) {v with held := held, spare := n.addr :: v.spare} := by
  obtain ⟨remaining, size, inside⟩ := rep.putSpec n.addr (rep.takenPos (w := .busy) (Or.inr (by simp [some])))
  have step : Rep origin (s.putBlock n.addr)
      {v.setList .busy (v.lists .busy) with held := held, spare := n.addr :: v.spare} := by
    refine rep.change .busy _ _ _ (rep.chain .busy) (fun u _ => rfl) (fun p _ _ _ => rfl) ?_ rfl inside
      remaining size ?_
    · exact fun k mem => rep.held k (by simp [some, mem])
    · simp only [some, addrsCons, bagCons]
      exact le_of_eq (by abel)
  rwa [setSame] at step

theorem insertNode (rep : Rep origin s v) {pre post post' held : List Node} {u u' : Nat}
    (some : v.held = n :: held) (split : v.lists w = pre ++ post) (suffix : post' <:+ post)
    (left : Seg layout s.memory (s.head w) pre u') (right : Seg layout s.memory u post' 0) :
    Rep origin ((s.writeNext n.addr u).link w (lastAddr pre) n.addr)
      {v.setList w (pre ++ n :: post') with held := held} := by
  have memHeld : n ∈ v.held := by simp [some]
  have apart : n.addr ∉ addrs (v.lists w) := fun mem => rep.heldApart mem memHeld rfl
  rw [split, addrsAppend, List.mem_append, not_or] at apart
  have notAfter : n.addr ∉ addrs post' := fun mem =>
    apart.2 (List.Sublist.subset ((suffix.sublist).map _) mem)
  have nodup : (addrs (pre ++ n :: post')).Nodup := by
    have whole := rep.nodupList w
    rw [split] at whole
    have part : (addrs (pre ++ post')).Nodup :=
      whole.sublist ((List.Sublist.append_left suffix.sublist pre).map _)
    rw [addrsAppend] at part
    rw [addrsAppend, addrsCons]
    exact List.nodup_middle.mpr (List.nodup_cons.mpr ⟨by simp [apart.1, notAfter], part⟩)
  have nonzero : n.addr ≠ 0 := by
    intro zero
    have inside : n.addr ∈ v.owned := Multiset.mem_of_le (v.listLeOwned w)
      (Multiset.mem_add.mpr (Or.inl (Multiset.mem_add.mpr (Or.inr
        (memBag.mpr (List.mem_map.mpr ⟨n, memHeld, rfl⟩))))))
    exact rep.nonzero (zero ▸ memBag.mp (Multiset.mem_of_le rep.owned inside))
  have other : ∀ p, p ≠ n.addr → (s.writeNext n.addr u).memory p = s.memory p :=
    fun p ne => Function.update_of_ne ne _ _
  refine rep.change w _ _ _ ?_ ?_ ?_ ?_ rfl rep.inside rep.remaining rfl ?_
  · simp only [Mm.link, Function.update_self]
    refine segInsert (segUpdate apart.1 left) (segUpdate notAfter right) nodup nonzero ?_ ?_
    · simp [Mm.writeNext, Mm.writeBlock, layout, rep.held n memHeld]
    · simp [Mm.writeNext, Mm.writeBlock, layout]
  · intro q ne
    exact Function.update_of_ne ne _ _
  · intro p outside notHeld _
    refine (Mm.linkElsewhere _ split outside).trans (other p ?_)
    rintro rfl
    exact notHeld (List.mem_map.mpr ⟨n, memHeld, rfl⟩)
  · intro k mem
    have outside : k.addr ∉ addrs (v.lists w) := fun inside => rep.heldApart inside (by simp [some, mem]) rfl
    refine (Mm.linkElsewhere _ split outside).trans ((other _ ?_).trans (rep.held k (by simp [some, mem])))
    intro eq
    have le := v.listLeOwned w
    rw [some, addrsCons, bagCons] at le
    have twice := (Multiset.nodup_of_le le rep.ownedNodup)
    rw [add_assoc, add_comm, add_assoc, add_assoc] at twice
    have both := (Multiset.nodup_add.mp twice).2.2
    exact Multiset.disjoint_left.mp both (Multiset.mem_singleton_self _)
      (Multiset.mem_add.mpr (Or.inl (memBag.mpr (eq ▸ List.mem_map.mpr ⟨k, mem, rfl⟩))))
  · simp only [split, some, addrsAppend, addrsCons, bagAppend, bagCons]
    have le : bag (addrs post') ≤ bag (addrs post) :=
      Multiset.coe_le.mpr ((suffix.sublist.map _).subperm)
    calc bag (addrs pre) + ({n.addr} + bag (addrs post')) + bag (addrs held) + bag v.spare
        = bag (addrs post') + (bag (addrs pre) + ({n.addr} + bag (addrs held)) + bag v.spare) := by abel
      _ ≤ bag (addrs post) + (bag (addrs pre) + ({n.addr} + bag (addrs held)) + bag v.spare) := by gcongr
      _ = bag (addrs pre) + bag (addrs post) + ({n.addr} + bag (addrs held)) + bag v.spare := by abel

theorem segAt (rep : Rep origin s v) (split : v.lists w = pre ++ post) :
    ∃ u, Seg layout s.memory (s.head w) pre u ∧ Seg layout s.memory u post 0 :=
  segAppend.mp (split ▸ rep.chain w)

theorem nodeNonzero (rep : Rep origin s v) (mem : n ∈ v.lists w) : n.addr ≠ 0 := by
  intro zero
  exact segNonzero (rep.chain w) (zero ▸ List.mem_map.mpr ⟨n, mem, rfl⟩)

theorem memoryAt (rep : Rep origin s v) (mem : n ∈ v.lists w) :
    (s.memory n.addr).base = n.value.base ∧ (s.memory n.addr).endAddr = n.value.endAddr := by
  obtain ⟨pre, post, split⟩ := List.append_of_mem mem
  obtain ⟨u, _, _, _, value, _⟩ := rep.segAt split
  rw [← value]
  exact ⟨rfl, rfl⟩

theorem splitNode (rep : Rep origin s v) {pre post held : List Node} {n new : Node}
    (some : v.held = new :: held) (split : v.lists w = pre ++ n :: post) (next : b.nextAddr = new.addr) :
    Rep origin ((s.writeNext new.addr (s.memory n.addr).nextAddr).writeBlock n.addr b)
      {v.setList w (pre ++ ⟨n.addr, b.base, b.endAddr⟩ :: new :: post) with held := held} := by
  have shift : v.lists w = (pre ++ [n]) ++ post := by simp [split]
  have nonzero : n.addr ≠ 0 := rep.nodeNonzero (w := w) (by simp [split])
  obtain ⟨u, left, right⟩ := rep.segAt shift
  obtain ⟨_, _, _, _, _, tail⟩ := rep.segAt split
  have inserted := rep.insertNode some shift List.suffix_rfl left tail
  rw [lastAddrConcat] at inserted
  have split' : ({v.setList w (pre ++ [n] ++ new :: post) with held := held} : View).lists w =
      pre ++ n :: new :: post := by simp [View.setList]
  have linked : b.nextAddr = (((s.writeNext new.addr (s.memory n.addr).nextAddr).link w n.addr
      new.addr).memory n.addr).nextAddr := by
    rw [next]
    simp [Mm.link, relink, nonzero, layout]
  have written := inserted.writeNode split' linked
  rw [layoutNext, Mm.linkWrite _ _ _ _ nonzero] at written
  simpa [View.setList] using written

theorem dropNext (rep : Rep origin s v) {n k : Node}
    (split : v.lists w = pre ++ n :: k :: post) (next : b.nextAddr = (s.memory k.addr).nextAddr) :
    Rep origin ((s.writeBlock n.addr b).putBlock k.addr)
      {v.setList w (pre ++ ⟨n.addr, b.base, b.endAddr⟩ :: post) with spare := k.addr :: v.spare} := by
  have shift : v.lists w = (pre ++ [n]) ++ k :: post := by simp [split]
  have nonzero : n.addr ≠ 0 := rep.nodeNonzero (w := w) (by simp [split])
  have unlinked := rep.unlinkNode shift
  rw [lastAddrConcat] at unlinked
  have split' : ({v.setList w (pre ++ [n] ++ post) with spare := k.addr :: v.spare} : View).lists w =
      pre ++ n :: post := by simp [View.setList]
  have linked : b.nextAddr = (((s.link w n.addr (s.memory k.addr).nextAddr).putBlock k.addr).memory
      n.addr).nextAddr := by
    rw [next]
    simp [Mm.putBlock, Mm.link, relink, nonzero, layout]
  have same : ((s.link w n.addr (s.memory k.addr).nextAddr).putBlock k.addr).writeBlock n.addr b =
      (s.writeBlock n.addr b).putBlock k.addr := by
    have write := s.linkWrite w (s.memory k.addr).nextAddr b nonzero
    simp only [Mm.writeBlock, Mm.putBlock, Mm.link, Mm.mk.injEq, and_true] at write ⊢
    exact write
  have written := unlinked.writeNode split' linked
  rw [same] at written
  simpa [View.setList] using written

end Rep

section loops
variable {origin : List Nat} {s : Mm} {v : View}

theorem Mm.writeSame (s : Mm) (a : Nat) : s.writeBlock a (s.memory a) = s := by
  simp [Mm.writeBlock]

def Follows (origin : List Nat) (v : View) (w : Which) (pre : List Node) (s : Mm)
    (result : Except Errno Unit × Mm) : Option (List Node × List Nat) → Prop
  | none => result = (.error .enomem, s)
  | some (rest, spare) => ∃ s', result = (.ok (), s') ∧
      Rep origin s' {v.setList w (pre ++ rest) with spare := spare}

variable {pre rest : List Node} {fuel curr : Nat}

theorem cutFreeListFollows (holdBase holdEnd : Nat) (i : Index) (rep : Rep origin s v) (split : v.lists (.free i) = pre ++ rest)
    (right : Seg layout s.memory curr rest 0) (enough : rest.length < fuel) :
    Follows origin v (.free i) pre s (cutFreeList holdBase holdEnd i fuel (lastAddr pre) curr s)
      (cutNodes holdBase holdEnd i rest v.spare) := by
  induction rest generalizing pre fuel curr with
  | nil =>
    obtain ⟨fuel, rfl⟩ := Nat.exists_eq_succ_of_ne_zero (by omega : fuel ≠ 0)
    obtain rfl : curr = 0 := right
    refine ⟨s, by simp [cutFreeList], ?_⟩
    rw [← split]
    exact (Rep.setSame v _).symm ▸ rep
  | cons n rest ih =>
    obtain ⟨fuel, rfl⟩ := Nat.exists_eq_succ_of_ne_zero (by omega : fuel ≠ 0)
    obtain ⟨rfl, nonzero, value, tail⟩ := right
    have mem : n ∈ v.lists (.free i) := by simp [split]
    obtain ⟨base, last⟩ := rep.memoryAt mem
    have dropped : Follows origin v (.free i) pre s (.ok (), ((s.link (.free i) (lastAddr pre)
        (s.memory n.addr).nextAddr).putBlock n.addr).writeBlock n.addr (s.memory n.addr))
        (some (rest, n.addr :: v.spare)) :=
      ⟨_, rfl, (rep.unlinkNode split).scribble (by simp)⟩
    have trimmed : ∀ b : SlobBlock, b.nextAddr = (s.memory n.addr).nextAddr →
        Follows origin v (.free i) pre s (.ok (), s.writeBlock n.addr b)
          (some (⟨n.addr, b.base, b.endAddr⟩ :: rest, v.spare)) :=
      fun b next => ⟨_, rfl, rep.writeNode split next⟩
    unfold cutNodes cutFreeList
    simp only [if_neg nonzero, base, last]
    split_ifs
    · exact dropped
    · exact trimmed _ rfl
    · cases spare : v.spare with
      | nil => simp [Follows, rep.createNone _ _ spare]
      | cons new spare =>
        obtain ⟨s', created, _, _, other, held⟩ := rep.hold (alignUp 64 holdEnd (alignment i))
          (minus 64 n.value.endAddr (alignUp 64 holdEnd (alignment i))) spare
        have apart : n.addr ≠ new := by
          rintro rfl
          exact (rep.spareApart (by simp [spare])).1 (List.mem_map.mpr ⟨n, mem, rfl⟩)
        simp only [created]
        refine ⟨_, rfl, ?_⟩
        have step := held.splitNode rfl split (b := ⟨n.value.base, holdBase, new⟩) rfl
        rw [other _ apart] at step
        exact step
    · exact trimmed _ rfl
    · exact trimmed _ rfl
    · exact dropped
    · rw [Mm.writeSame]
      have shift : v.lists (.free i) = (pre ++ [n]) ++ rest := by simp [split]
      have next := ih shift tail (by simpa using enough)
      rw [lastAddrConcat] at next
      cases out : cutNodes holdBase holdEnd i rest v.spare with
      | none => simpa [Follows, out] using next
      | some r => simpa [Follows, out] using next

theorem cutFreeFromFollows (holdBase holdEnd : Nat) (lists : List Index) (rep : Rep origin s v) :
    ∃ s', cutFreeFrom holdBase holdEnd lists s = ((v.cut holdBase holdEnd lists).1, s') ∧
      Rep origin s' (v.cut holdBase holdEnd lists).2 := by
  induction lists generalizing s v with
  | nil => exact ⟨s, rfl, rep⟩
  | cons i rest ih =>
    have first := cutFreeListFollows holdBase holdEnd i rep (List.nil_append _).symm (rep.chain _)
      (rep.lengthLt _)
    simp only [lastAddr] at first
    unfold cutFreeFrom View.cut
    cases out : cutNodes holdBase holdEnd i (v.lists (.free i)) v.spare with
    | none =>
      simp only [out, Follows] at first
      exact ⟨s, by rw [first], rep⟩
    | some r =>
      simp only [out, Follows, List.nil_append] at first
      obtain ⟨s', done, rep'⟩ := first
      rw [done]
      exact ih rep'

theorem eliminateFollows {n : Node} (endAddr : Nat)
    (rep : Rep origin s v) (split : v.lists w = pre ++ n :: rest) (enough : rest.length < fuel) :
    ∃ s', (let (b, s) := eliminateLoop n.addr endAddr fuel (s.memory n.addr) s
        eliminateLast n.addr endAddr b s) = (s'.memory n.addr, s') ∧
      (eliminateNodes endAddr n rest v.spare).1.addr = n.addr ∧
      Rep origin s' {v.setList w (pre ++ (eliminateNodes endAddr n rest v.spare).1 ::
        (eliminateNodes endAddr n rest v.spare).2.1) with
          spare := (eliminateNodes endAddr n rest v.spare).2.2} := by
  induction rest generalizing s v fuel with
  | nil =>
    obtain ⟨fuel, rfl⟩ := Nat.exists_eq_succ_of_ne_zero (by omega : fuel ≠ 0)
    obtain ⟨u, _, rfl, nonzero, value, last⟩ := rep.segAt split
    have zero : (s.memory n.addr).nextAddr = 0 := last
    have base : (s.memory n.addr).base = n.value.base := by rw [← value]; rfl
    refine ⟨s.writeBlock n.addr {s.memory n.addr with endAddr := endAddr}, ?_, rfl, ?_⟩
    · simp [eliminateLoop, eliminateLast, zero, Mm.writeBlock]
    · have step := rep.writeNode split (b := {s.memory n.addr with endAddr := endAddr}) rfl
      simpa [eliminateNodes, base, View.setList] using step
  | cons k rest ih =>
    obtain ⟨fuel, rfl⟩ := Nat.exists_eq_succ_of_ne_zero (by omega : fuel ≠ 0)
    obtain ⟨u, _, rfl, nonzero, value, link, nonzeroK, valueK, tail⟩ := rep.segAt split
    have link : (s.memory n.addr).nextAddr = k.addr := link
    have base : (s.memory n.addr).base = n.value.base := by rw [← value]; rfl
    have last : (s.memory n.addr).endAddr = n.value.endAddr := by rw [← value]; rfl
    have baseK : (s.memory k.addr).base = k.value.base := by rw [← valueK]; rfl
    have lastK : (s.memory k.addr).endAddr = k.value.endAddr := by rw [← valueK]; rfl
    simp only [eliminateLoop, eliminateNodes, link, lastK]
    by_cases covered : k.value.endAddr < endAddr
    · simp only [covered, nonzeroK, ne_eq, not_false_eq_true, and_self, if_true]
      have step := rep.dropNext split
        (b := {s.memory n.addr with nextAddr := (s.memory k.addr).nextAddr}) rfl
      have split' : ({v.setList w (pre ++ ⟨n.addr, n.value⟩ :: rest) with
          spare := k.addr :: v.spare} : View).lists w = pre ++ n :: rest := by simp [View.setList]
      simp only [base, last] at step
      obtain ⟨s', done, same, rep'⟩ := ih step split' (by simpa using enough : rest.length < fuel)
      refine ⟨s', ?_, same, ?_⟩
      · simpa [Mm.writeBlock, Mm.putBlock, base, last] using done
      · simpa [View.setList] using rep'
    · simp only [covered, and_false, if_false, eliminateLast, link, nonzeroK, false_or, baseK, lastK]
      by_cases clear : endAddr < k.value.base
      · simp only [clear, if_true]
        refine ⟨s.writeBlock n.addr {s.memory n.addr with endAddr := endAddr}, ?_, trivial, ?_⟩
        · simp [Mm.writeBlock, link]
        · have step := rep.writeNode split (b := {s.memory n.addr with endAddr := endAddr}) rfl
          simpa [base, View.setList] using step
      · simp only [clear, if_false]
        refine ⟨(s.writeBlock n.addr ⟨n.value.base, k.value.endAddr, (s.memory k.addr).nextAddr⟩).putBlock
          k.addr, ?_, trivial, rep.dropNext split rfl⟩
        simp [Mm.writeBlock, Mm.putBlock, base]

theorem insertFollows {i : Index} {pre post : List Node} {a : Nat} {spare : List Nat} (alignBase size : Nat)
    (rep : Rep origin s v) (split : v.lists (.free i) = pre ++ post) (some : v.spare = a :: spare) :
    ∃ s', insertFreeBlock i alignBase size (lastAddr pre) s = .some (a, s') ∧
      Rep origin s' {v.setList (.free i) (pre ++ [⟨a, alignBase, wrap 64 (alignBase + size)⟩]) with
        spare := spare} := by
  obtain ⟨s', created, heads, _, other, held⟩ := rep.hold alignBase size some
  obtain ⟨u, left, _⟩ := held.segAt split
  have zero : (s'.memory a).nextAddr = 0 := by rw [held.held _ List.mem_cons_self]
  have step := held.insertNode rfl split List.nil_suffix left (show Seg layout s'.memory 0 [] 0 from rfl)
  rw [Mm.writeNextSame _ zero] at step
  exact ⟨_, by simp [insertFreeBlock, created], step⟩

def AddFollows (origin : List Nat) (v : View) (i : Index) (pre : List Node) (s : Mm) (bounds : Span)
    (result : Except Errno Span × Mm) : Option Added → Prop
  | none => result = (.error .enomem, s)
  | some r => ∃ s', result = (.ok (boundaries i r.merged bounds), s') ∧
      Rep origin s' {v.setList (.free i) (pre ++ r.nodes) with spare := r.spare}

theorem absorbFollows {i : Index} {n : Node} (alignBase endAddr size : Nat) (bounds : Span)
    (rep : Rep origin s v) (split : v.lists (.free i) = pre ++ n :: rest) :
    AddFollows origin v i pre s bounds
      (addFreeEnd i alignBase size bounds
        (.ok (absorb i alignBase endAddr (lastAddr pre) n.addr (s.memory n.addr) s).1,
          (absorb i alignBase endAddr (lastAddr pre) n.addr (s.memory n.addr) s).2))
      (some (absorbNodes i alignBase endAddr size n rest v.spare)) := by
  obtain ⟨base, last⟩ := rep.memoryAt (w := .free i) (n := n) (by simp [split])
  have nonzero : n.addr ≠ 0 := rep.nodeNonzero (w := .free i) (by simp [split])
  obtain ⟨b, b', s', memory, value, grown, absorbed, absorbedNodes⟩ : ∃ (b : Span) (b' : SlobBlock) (s' : Mm),
      s'.memory n.addr = b' ∧ (b'.base = b.base ∧ b'.endAddr = b.endAddr) ∧
      Rep origin s' (v.setList (.free i) (pre ++ ⟨n.addr, b⟩ :: rest)) ∧
      absorb i alignBase endAddr (lastAddr pre) n.addr (s.memory n.addr) s =
        (if minus 64 b.endAddr b.base < alignment i then
          (⟨0, 0, lastAddr pre⟩, (s'.link (.free i) (lastAddr pre) b'.nextAddr).putBlock n.addr)
        else (⟨0, n.addr, lastAddr pre⟩, s')) ∧
      absorbNodes i alignBase endAddr size n rest v.spare =
        (if minus 64 b.endAddr b.base < alignment i then
          if alignment i ≤ size then ⟨[⟨n.addr, alignBase, wrap 64 (alignBase + size)⟩], v.spare, none⟩
          else ⟨rest, n.addr :: v.spare, none⟩
        else ⟨⟨n.addr, b⟩ :: rest, v.spare, some b⟩) := by
    by_cases grow : alignBase < n.value.base ∧ n.value.base ≤ endAddr
    · refine ⟨⟨alignBase, n.value.endAddr⟩, {s.memory n.addr with base := alignBase},
        s.writeBlock n.addr {s.memory n.addr with base := alignBase}, Function.update_self _ _ _,
        ⟨rfl, last⟩, ?_, ?_, ?_⟩
      · have step := rep.writeNode split (b := {s.memory n.addr with base := alignBase}) rfl
        simpa only [last] using step
      · simp only [absorb, base, grow, and_self, if_true, last]
      · simp only [absorbNodes, grow, and_self, if_true]
    · refine ⟨n.value, s.memory n.addr, s, rfl, ⟨base, last⟩, ?_, ?_, ?_⟩
      · rw [← split, Rep.setSame]
        exact rep
      · simp only [absorb, base, grow, if_false, last]
      · simp only [absorbNodes, grow, if_false]
  rw [absorbed, absorbedNodes]
  have split' : (v.setList (.free i) (pre ++ ⟨n.addr, b⟩ :: rest)).lists (.free i) =
      pre ++ ⟨n.addr, b⟩ :: rest := by simp [View.setList]
  by_cases small : minus 64 b.endAddr b.base < alignment i
  · have unlinked := grown.unlinkNode split'
    rw [memory] at unlinked
    simp only [small, if_true, addFreeEnd, true_and]
    by_cases large : alignment i ≤ size
    · simp only [large, if_true]
      have split'' : ({(v.setList (.free i) (pre ++ ⟨n.addr, b⟩ :: rest)).setList (.free i) (pre ++ rest) with
          spare := n.addr :: v.spare} : View).lists (.free i) = pre ++ rest := by simp [View.setList]
      obtain ⟨s'', inserted, rep''⟩ := insertFollows alignBase size unlinked split'' rfl
      rw [inserted]
      exact ⟨s'', by simp [updateBoundaries, boundaries], by simpa [View.setList] using rep''⟩
    · simp only [large, if_false]
      refine ⟨(s'.link (.free i) (lastAddr pre) b'.nextAddr).putBlock n.addr, ?_, ?_⟩
      · simp [updateBoundaries, boundaries]
      · simpa [View.setList] using unlinked
  · simp only [small, if_false, addFreeEnd, nonzero, false_and]
    refine ⟨s', ?_, grown⟩
    simp [updateBoundaries, boundaries, nonzero, memory, value.1, value.2]

theorem addFreeLoopFollows {i : Index} (alignBase endAddr size : Nat) (bounds : Span) (rep : Rep origin s v)
    (split : v.lists (.free i) = pre ++ rest) (right : Seg layout s.memory curr rest 0)
    (enough : rest.length < fuel) :
    AddFollows origin v i pre s bounds
      (addFreeEnd i alignBase size bounds (addFreeLoop i alignBase endAddr size fuel (lastAddr pre) curr s))
      (addNodes i alignBase endAddr size rest v.spare) := by
  induction rest generalizing pre fuel curr with
  | nil =>
    obtain ⟨fuel, rfl⟩ := Nat.exists_eq_succ_of_ne_zero (by omega : fuel ≠ 0)
    obtain rfl : curr = 0 := right
    simp only [addFreeLoop, if_true, addFreeEnd, addNodes, true_and]
    by_cases large : alignment i ≤ size
    · simp only [large, if_true]
      cases spare : v.spare with
      | nil => simp [AddFollows, insertFreeBlock, rep.createNone _ _ spare]
      | cons a spare =>
        obtain ⟨s', inserted, rep'⟩ := insertFollows alignBase size rep split spare
        rw [inserted]
        exact ⟨s', by simp [updateBoundaries, boundaries], rep'⟩
    · simp only [large, if_false]
      refine ⟨s, by simp [updateBoundaries, boundaries], ?_⟩
      rw [← split]
      exact (Rep.setSame v _).symm ▸ rep
  | cons n rest ih =>
    obtain ⟨fuel, rfl⟩ := Nat.exists_eq_succ_of_ne_zero (by omega : fuel ≠ 0)
    obtain ⟨rfl, nonzero, value, tail⟩ := right
    have mem : n ∈ v.lists (.free i) := by simp [split]
    obtain ⟨base, last⟩ := rep.memoryAt mem
    unfold addFreeLoop addNodes
    simp only [if_neg nonzero, base, last]
    split_ifs with reach longer before
    · -- the end of the released piece lies behind this block
      have length : rest.length < s.fuel := by
        have := rep.lengthLt (.free i)
        simp only [split, List.length_append, List.length_cons] at this
        omega
      obtain ⟨s', done, same, rep'⟩ := eliminateFollows endAddr rep split length
      have split' : ({v.setList (.free i) (pre ++ (eliminateNodes endAddr n rest v.spare).1 ::
          (eliminateNodes endAddr n rest v.spare).2.1) with
            spare := (eliminateNodes endAddr n rest v.spare).2.2} : View).lists (.free i) =
          pre ++ (eliminateNodes endAddr n rest v.spare).1 ::
            (eliminateNodes endAddr n rest v.spare).2.1 := by simp [View.setList]
      have step := absorbFollows alignBase endAddr size bounds rep' split'
      rw [same] at step
      simp only [eliminateRedundantFreeBlocks, done]
      obtain ⟨s'', finished, rep''⟩ := step
      exact ⟨s'', finished, by simpa [View.setList] using rep''⟩
    · -- the released piece lies before this block
      cases spare : v.spare with
      | nil => simp [AddFollows, rep.createNone _ _ spare, addFreeEnd]
      | cons a spare =>
        obtain ⟨s', created, heads, _, other, held⟩ := rep.hold alignBase size spare
        have apart : ∀ p ∈ addrs (v.lists (.free i)), p ≠ a := by
          rintro p inside rfl
          exact (rep.spareApart (by simp [spare])).1 inside
        have right' : Seg layout s'.memory n.addr (n :: rest) 0 := by
          apply segFrame _ (show Seg layout s.memory n.addr (n :: rest) 0 from ⟨rfl, nonzero, value, tail⟩)
          intro p inside
          exact other p (apart p (by rw [split, addrsAppend]; exact List.mem_append_right _ inside))
        obtain ⟨u, left, _⟩ := held.segAt split
        have step := held.insertNode rfl split List.suffix_rfl left right'
        simp only [created, addFreeEnd, nonzero, false_and, if_false]
        refine ⟨_, ?_, step⟩
        have nonzeroA : a ≠ 0 := by
          rintro rfl
          have inside := Multiset.mem_of_le rep.owned (Multiset.mem_of_le (v.listLeOwned .busy)
            (Multiset.mem_add.mpr (Or.inr (memBag.mpr (by rw [spare]; exact List.mem_cons_self)))))
          exact rep.nonzero (memBag.mp inside)
        simp [updateBoundaries, boundaries, nonzeroA]
    · exact absorbFollows alignBase endAddr size bounds rep split
    · have shift : v.lists (.free i) = (pre ++ [n]) ++ rest := by simp [split]
      have next := ih shift tail (by simpa using enough)
      rw [lastAddrConcat] at next
      cases out : addNodes i alignBase endAddr size rest v.spare with
      | none => simpa [AddFollows, out] using next
      | some r => simpa [AddFollows, out] using next

theorem addFreeListFollows (i : Index) (bounds : Span) (rep : Rep origin s v) :
    match v.addList i bounds with
    | none => addFreeList i bounds s = (.error .enomem, s)
    | some (bounds', v') => ∃ s', addFreeList i bounds s = (.ok bounds', s') ∧ Rep origin s' v' := by
  unfold View.addList addFreeList
  simp only []
  split_ifs with past
  · exact ⟨s, rfl, rep⟩
  · have step := addFreeLoopFollows (alignUp 64 bounds.base (alignment i)) bounds.endAddr
      (minus 64 bounds.endAddr (alignUp 64 bounds.base (alignment i))) bounds rep (List.nil_append _).symm
      (rep.chain (.free i)) (rep.lengthLt _)
    simp only [lastAddr] at step
    cases out : addNodes i (alignUp 64 bounds.base (alignment i)) bounds.endAddr
        (minus 64 bounds.endAddr (alignUp 64 bounds.base (alignment i))) (v.lists (.free i)) v.spare with
    | none => simpa only [out, AddFollows, Option.map_none] using step
    | some r => simpa only [out, AddFollows, Option.map_some, List.nil_append] using step

theorem addFreeFromFollows (lists : List Index) (bounds : Span) (rep : Rep origin s v) :
    ∃ s', addFreeFrom lists bounds s = ((v.add lists bounds).1, s') ∧
      Rep origin s' (v.add lists bounds).2 := by
  induction lists generalizing s v bounds with
  | nil => exact ⟨s, rfl, rep⟩
  | cons i rest ih =>
    have first := addFreeListFollows i bounds rep
    unfold addFreeFrom View.add
    cases out : v.addList i bounds with
    | none =>
      simp only [out] at first
      exact ⟨s, by rw [first], rep⟩
    | some r =>
      simp only [out] at first
      obtain ⟨s', done, rep'⟩ := first
      rw [done]
      exact ih r.1 rep'

theorem busyLoopFollows (new : Node) (rep : Rep origin s v)
    (split : v.lists .busy = pre ++ rest) (right : Seg layout s.memory curr rest 0)
    (enough : rest.length < fuel) :
    ∃ pre' rest', v.lists .busy = pre' ++ rest' ∧ pre ++ busyNodes new rest = pre' ++ new :: rest' ∧
      (addBusyLoop new.value.base s fuel (lastAddr pre) curr).1 = lastAddr pre' ∧
      Seg layout s.memory (addBusyLoop new.value.base s fuel (lastAddr pre) curr).2 rest' 0 := by
  induction rest generalizing pre fuel curr with
  | nil =>
    obtain ⟨fuel, rfl⟩ := Nat.exists_eq_succ_of_ne_zero (by omega : fuel ≠ 0)
    obtain rfl : curr = 0 := right
    exact ⟨pre, [], split, rfl, by simp [addBusyLoop], by simp [addBusyLoop]⟩
  | cons n rest ih =>
    obtain ⟨fuel, rfl⟩ := Nat.exists_eq_succ_of_ne_zero (by omega : fuel ≠ 0)
    obtain ⟨rfl, nonzero, value, tail⟩ := right
    obtain ⟨base, _⟩ := rep.memoryAt (w := .busy) (n := n) (by simp [split])
    by_cases lower : n.value.base < new.value.base
    · have shift : v.lists .busy = (pre ++ [n]) ++ rest := by simp [split]
      obtain ⟨pre', rest', split', nodes, prev, seg⟩ := ih shift tail (by simpa using enough)
      rw [lastAddrConcat] at prev seg
      refine ⟨pre', rest', split', ?_, ?_, ?_⟩
      · simpa [busyNodes, lower] using nodes
      · simpa [addBusyLoop, nonzero, base, lower] using prev
      · simpa [addBusyLoop, nonzero, base, lower] using seg
    · refine ⟨pre, n :: rest, split, by simp [busyNodes, lower], ?_, ?_⟩
      · simp [addBusyLoop, base, lower]
      · simp only [addBusyLoop, base, lower, and_false, if_false]
        exact ⟨rfl, nonzero, value, tail⟩

theorem addBusyFollows {new : Node} {held : List Node} (rep : Rep origin s v) (some : v.held = new :: held) :
    Rep origin (addBusy new.addr s) {v.setList .busy (busyNodes new (v.lists .busy)) with held := held} := by
  have cell := rep.held new (by simp [some])
  obtain ⟨pre, rest, split, nodes, prev, seg⟩ :=
    busyLoopFollows new rep (List.nil_append _).symm (rep.chain .busy) (rep.lengthLt _)
  obtain ⟨u, left, _⟩ := rep.segAt split
  have step := rep.insertNode some split List.suffix_rfl left seg
  rw [← nodes, List.nil_append, ← prev] at step
  simp only [lastAddr] at step
  unfold addBusy
  simp only [cell]
  split_ifs with more
  · exact step
  · rw [not_not.mp more, Mm.writeNextSame s (by rw [cell])] at step
    exact step

theorem findBlockFollows (size : Nat) (right : Seg layout s.memory curr rest 0) (enough : rest.length < fuel) :
    match rest.find? (fun n => size ≤ minus 64 n.value.endAddr n.value.base) with
    | none => findBlock s.memory size fuel curr = 0
    | some n => findBlock s.memory size fuel curr = n.addr ∧ n ∈ rest := by
  induction rest generalizing fuel curr with
  | nil =>
    obtain ⟨fuel, rfl⟩ := Nat.exists_eq_succ_of_ne_zero (by omega : fuel ≠ 0)
    obtain rfl : curr = 0 := right
    simp [findBlock]
  | cons n rest ih =>
    obtain ⟨fuel, rfl⟩ := Nat.exists_eq_succ_of_ne_zero (by omega : fuel ≠ 0)
    obtain ⟨rfl, nonzero, value, tail⟩ := right
    have base : (s.memory n.addr).base = n.value.base := by rw [← value]; rfl
    have last : (s.memory n.addr).endAddr = n.value.endAddr := by rw [← value]; rfl
    by_cases fits : size ≤ minus 64 n.value.endAddr n.value.base
    · rw [List.find?_cons_of_pos (by simpa using fits)]
      simp [findBlock, base, last, Nat.not_lt.mpr fits]
    · rw [List.find?_cons_of_neg (by simpa using fits)]
      have next := ih tail (by simpa using enough : rest.length < fuel)
      have skip : findBlock s.memory size (fuel + 1) n.addr =
          findBlock s.memory size fuel (layout.next (s.memory n.addr)) := by
        simp [findBlock, nonzero, base, last, Nat.lt_of_not_le fits]
      rw [Nat.succ_eq_add_one, skip]
      cases found : rest.find? (fun n => size ≤ minus 64 n.value.endAddr n.value.base) with
      | none => simpa only [found] using next
      | some k =>
        simp only [found] at next
        exact ⟨next.1, List.mem_cons_of_mem _ next.2⟩

theorem findBusyFollows {pre rest : List Node} {fuel curr : Nat} (base : Nat)
    (right : Seg layout s.memory curr rest 0) (enough : rest.length < fuel) :
    match takeBusy base rest with
    | none => (findBusy s.memory base fuel (lastAddr pre) curr).2 = 0
    | some (n, others) => ∃ pre' post, pre ++ rest = pre' ++ n :: post ∧ pre ++ others = pre' ++ post ∧
        findBusy s.memory base fuel (lastAddr pre) curr = (lastAddr pre', n.addr) := by
  induction rest generalizing pre fuel curr with
  | nil =>
    obtain ⟨fuel, rfl⟩ := Nat.exists_eq_succ_of_ne_zero (by omega : fuel ≠ 0)
    obtain rfl : curr = 0 := right
    simp [takeBusy, findBusy]
  | cons n rest ih =>
    obtain ⟨fuel, rfl⟩ := Nat.exists_eq_succ_of_ne_zero (by omega : fuel ≠ 0)
    obtain ⟨rfl, nonzero, value, tail⟩ := right
    have baseEq : (s.memory n.addr).base = n.value.base := by rw [← value]; rfl
    unfold takeBusy
    by_cases other : base ≠ n.value.base
    · rw [if_pos other]
      have skip : findBusy s.memory base (fuel + 1) (lastAddr pre) n.addr =
          findBusy s.memory base fuel (lastAddr (pre ++ [n])) (layout.next (s.memory n.addr)) := by
        simp [findBusy, nonzero, baseEq, other]
      have next := @ih (pre ++ [n]) fuel _ tail (by simpa using enough)
      rw [Nat.succ_eq_add_one, skip]
      cases found : takeBusy base rest with
      | none => simpa only [found, Option.map_none] using next
      | some r => simpa only [found, Option.map_some, List.append_assoc, List.singleton_append] using next
    · rw [if_neg other]
      refine ⟨pre, rest, rfl, rfl, ?_⟩
      simp [findBusy, baseEq, not_not.mp other]

end loops

section calls
variable {origin : List Nat} {s : Mm} {v : View}

theorem Rep.setFree (rep : Rep origin s v) (n : Nat) :
    Rep origin {s with freeMemSize := n} {v with freeMemSize := n} :=
  {rep with freeMemSize := rfl}

theorem slobGetAlignmentFollows (size : Nat) (i : Index) (rep : Rep origin s v) :
    ∃ s', slobGetAlignment s size i = ((v.getAlignment size i).1, s') ∧
      Rep origin s' (v.getAlignment size i).2 := by
  have chain := rep.chain (.free i)
  have enough := rep.lengthLt (.free i)
  unfold slobGetAlignment View.getAlignment
  cases list : v.lists (.free i) with
  | nil =>
    rw [list] at chain
    have zero : s.head (.free i) = 0 := chain
    exact ⟨s, by simp [zero], rep⟩
  | cons first rest =>
    rw [list] at chain enough
    obtain ⟨start, nonzero, _, _⟩ := chain
    obtain ⟨_, last⟩ := rep.memoryAt (w := .free i) (n := first) (by simp [list])
    have found := findBlockFollows size (start ▸ rep.chain (.free i)) (list ▸ enough)
    rw [list] at found
    simp only [start, nonzero, last, false_or]
    split_ifs with dead missing
    · exact ⟨s, rfl, rep⟩
    · refine ⟨s, ?_, ?_⟩
      all_goals
        cases out : (first :: rest).find? (fun n => size ≤ minus 64 n.value.endAddr n.value.base) with
        | none => simp [rep]
        | some n =>
          simp only [out] at found
          exact absurd (found.1.symm.trans missing) (rep.nodeNonzero (w := .free i) (list ▸ found.2))
    · cases out : (first :: rest).find? (fun n => size ≤ minus 64 n.value.endAddr n.value.base) with
      | none =>
        simp only [out] at found
        exact absurd found missing
      | some n =>
        simp only [out] at found
        obtain ⟨base, _⟩ := rep.memoryAt (w := .free i) (n := n) (list ▸ found.2)
        simp only [found.1, base]
        cases some : v.spare with
        | nil => exact ⟨s, by simp [rep.createNone _ _ some], rep⟩
        | cons addr spare =>
          obtain ⟨s₁, created, _, _, _, held⟩ := rep.hold n.value.base size some
          obtain ⟨s₂, cutDone, rep₂⟩ := cutFreeFromFollows n.value.base (wrap 64 (n.value.base + size))
            (List.finRange (mmMaxAlignment + 1)) held
          have frame := View.cutFrame n.value.base (wrap 64 (n.value.base + size))
            (List.finRange (mmMaxAlignment + 1))
            {v with held := ⟨addr, n.value.base, wrap 64 (n.value.base + size)⟩ :: v.held, spare := spare}
          simp only [created, cutFree, cutDone]
          generalize View.cut n.value.base (wrap 64 (n.value.base + size)) (List.finRange (mmMaxAlignment + 1))
            {v with held := ⟨addr, n.value.base, wrap 64 (n.value.base + size)⟩ :: v.held, spare := spare} = out
            at rep₂ frame
          obtain ⟨result, v'⟩ := out
          cases result with
          | error e => exact ⟨_, rfl, rep₂.release frame.1⟩
          | ok _ =>
            refine ⟨_, rfl, ?_⟩
            have step := addBusyFollows (rep₂.setFree (minus 64 s₂.freeMemSize size)) frame.1
            rw [rep₂.freeMemSize] at step
            simp only [rep₂.freeMemSize]
            exact step

theorem slobGetFollows (size align : Nat) (rep : Rep origin s v) :
    ∃ s', slobGet s size align = ((v.get size align).1, s') ∧ Rep origin s' (v.get size align).2 := by
  unfold slobGet View.get
  simp only []
  split_ifs
  · exact ⟨s, rfl, rep⟩
  all_goals exact slobGetAlignmentFollows size _ rep

theorem slobPutFollows (base : Nat) (rep : Rep origin s v) :
    ∃ s', slobPut s base = ((v.put base).1, s') ∧ Rep origin s' (v.put base).2 := by
  have found := @findBusyFollows s [] (v.lists .busy) s.fuel (s.head .busy) base (rep.chain .busy)
    (rep.lengthLt .busy)
  unfold slobPut View.put
  simp only [lastAddr] at found
  cases out : takeBusy base (v.lists .busy) with
  | none =>
    simp only [out] at found
    exact ⟨s, by simp [found], rep⟩
  | some r =>
    obtain ⟨n, others⟩ := r
    simp only [out, List.nil_append] at found
    obtain ⟨pre, post, split, rfl, done⟩ := found
    have mem : n ∈ v.lists .busy := by simp [split]
    obtain ⟨first, last⟩ := rep.memoryAt mem
    obtain ⟨s₁, added, rep₁⟩ := addFreeFromFollows (List.finRange (mmMaxAlignment + 1)) n.value rep
    have frame := View.addFrame (List.finRange (mmMaxAlignment + 1)) n.value v
    simp only [done, rep.nodeNonzero mem, if_false, first, last, addFree, added]
    generalize v.add (List.finRange (mmMaxAlignment + 1)) n.value = out at rep₁ frame
    obtain ⟨result, v'⟩ := out
    cases result with
    | error e => exact ⟨_, rfl, rep₁⟩
    | ok _ =>
      refine ⟨_, rfl, ?_⟩
      have split₁ : v'.lists .busy = pre ++ n :: post := frame.2.1.trans split
      obtain ⟨_, _, _, _, _, before⟩ := rep.segAt split
      obtain ⟨_, _, _, _, _, after⟩ := rep₁.segAt split₁
      have next : (s.memory n.addr).nextAddr = (s₁.memory n.addr).nextAddr := segSameStart before after
      have step := (rep₁.unlinkNode split₁).setFree
        (wrap 64 (s₁.freeMemSize + minus 64 n.value.endAddr n.value.base))
      rw [← next, rep₁.freeMemSize] at step
      rw [show (s₁.link .busy (lastAddr pre) (s.memory n.addr).nextAddr).freeMemSize = v'.freeMemSize from
        rep₁.freeMemSize]
      exact step

theorem initListsFollows (base size : Nat) (lists : List Index) (rep : Rep origin s v)
    (empty : ∀ i ∈ lists, v.lists (.free i) = []) (nodup : lists.Nodup) :
    match v.initLists base size lists with
    | none => initLists base size lists s = .error .enomem
    | some v' => ∃ s', initLists base size lists s = .ok s' ∧ Rep origin s' v' := by
  induction lists generalizing s v with
  | nil => exact ⟨s, rfl, rep⟩
  | cons i rest ih =>
    unfold View.initLists initLists
    cases some : v.spare with
    | nil => simp [rep.createNone _ _ some]
    | cons addr spare =>
      have span : ∀ first : Span, first = (if size < minus 64 (alignUp 64 base (alignment i)) base then
            (⟨0, 0⟩ : Span) else ⟨alignUp 64 base (alignment i),
              minus 64 size (minus 64 (alignUp 64 base (alignment i)) base)⟩) →
          (⟨first.base, wrap 64 (first.base + first.endAddr)⟩ : Span) = View.firstSpan base size i := by
        rintro _ rfl
        unfold View.firstSpan
        simp only []
        split_ifs <;> rfl
      obtain ⟨s', created, heads, _, _, held⟩ := rep.hold (if size < minus 64 (alignUp 64 base (alignment i)) base
        then (⟨0, 0⟩ : Span) else ⟨alignUp 64 base (alignment i),
          minus 64 size (minus 64 (alignUp 64 base (alignment i)) base)⟩).base
        (if size < minus 64 (alignUp 64 base (alignment i)) base then (⟨0, 0⟩ : Span) else
          ⟨alignUp 64 base (alignment i),
            minus 64 size (minus 64 (alignUp 64 base (alignment i)) base)⟩).endAddr some
      rw [span _ rfl] at held
      have nil : v.lists (.free i) = [] ++ [] := empty i List.mem_cons_self
      obtain ⟨u, left, _⟩ := held.segAt nil
      have cell := held.held ⟨addr, View.firstSpan base size i⟩ List.mem_cons_self
      have step := held.insertNode rfl nil List.suffix_rfl left (show Seg layout s'.memory 0 [] 0 from rfl)
      rw [Mm.writeNextSame s' (by rw [cell])] at step
      have head : s'.link (.free i) (lastAddr ([] : List Node)) addr =
          {s' with head := Function.update s'.head (.free i) addr} := by
        simp [Mm.link, relink, lastAddr]
      rw [head] at step
      simp only [created]
      refine ih step ?_ (List.nodup_cons.mp nodup).2
      intro j mem
      have ne : Which.free j ≠ Which.free i := by
        rintro eq
        cases eq
        exact (List.nodup_cons.mp nodup).1 mem
      simp [View.setList, Function.update_of_ne ne, empty j (List.mem_cons_of_mem _ mem)]

end calls

theorem freshRep (memory : Nat → SlobBlock) (size : Nat) {pool : BufferPool} (fresh : Fresh pool) :
    Rep pool.remaining ⟨memory, fun _ => 0, size, pool⟩ ⟨fun _ => [], [], pool.remaining, size⟩ where
  chain _ := rfl
  held := by simp
  freeMemSize := rfl
  inside := by simp [fresh.current]
  remaining := rfl
  size := by simp [BufferPool.remaining, fresh.current]
  nodup := fresh.nodup
  nonzero := fresh.nonzero
  owned := by simp [View.owned, addrs]

theorem slobInitFollows {memory : Nat → SlobBlock} {base size : Nat} {boot boot' : InitialMemMng}
    {pool : BufferPool} {s : Mm} (fresh : Fresh pool)
    (done : slobInit memory base size boot pool = some (.ok s, boot')) :
    ∃ v, View.init base size pool.remaining = some v ∧ Rep pool.remaining s v := by
  have rep := freshRep memory size fresh
  simp only [slobInit, Option.bind_eq_bind, Option.bind_eq_some_iff] at done
  obtain ⟨⟨reserved, _⟩, _, last⟩ := done
  cases reserved with
  | error e => simp at last
  | ok _ =>
    simp only at last
    unfold View.init
    simp only []
    split_ifs at last ⊢ with zero
    · cases last
      exact ⟨_, rfl, rep⟩
    · have step := initListsFollows base size (List.finRange (mmMaxAlignment + 1)) rep (fun _ _ => rfl)
        (List.nodup_finRange _)
      have eq : initLists base size (List.finRange (mmMaxAlignment + 1)) ⟨memory, fun _ => 0, size, pool⟩ =
          .ok s := by simpa using congrArg (Option.map Prod.fst) last
      cases out : View.initLists base size (List.finRange (mmMaxAlignment + 1))
          ⟨fun _ => [], [], pool.remaining, size⟩ with
      | none =>
        simp only [out, eq] at step
        cases step
      | some v =>
        simp only [out, eq] at step
        obtain ⟨s', same, rep'⟩ := step
        cases same
        exact ⟨v, rfl, rep'⟩

inductive Call where
  | get (size align : Nat)
  | put (base : Nat)
  deriving DecidableEq, Repr

def Call.Legal : Call → Prop
  | .get size _ => 1 ≤ size
  | .put _ => True

instance (c : Call) : Decidable c.Legal :=
  match c with
  | .get size _ => inferInstanceAs (Decidable (1 ≤ size))
  | .put _ => .isTrue trivial

def Mm.call (s : Mm) : Call → Except Refusal Nat × Mm
  | .get size align => slobGet s size align
  | .put base => slobPut s base

def View.call (v : View) : Call → Except Refusal Nat × View
  | .get size align => v.get size align
  | .put base => v.put base

inductive Reached (allowed : Mm → Call → Prop) (start : Mm) : Mm → Prop where
  | start : Reached allowed start start
  | step {s : Mm} {c : Call} (prior : Reached allowed start s) (ok : allowed s c) :
      Reached allowed start (s.call c).2

theorem callFollows {origin : List Nat} {s : Mm} {v : View} (c : Call) (rep : Rep origin s v) :
    (s.call c).1 = (v.call c).1 ∧ Rep origin (s.call c).2 (v.call c).2 := by
  cases c with
  | get size align =>
    obtain ⟨s', done, rep'⟩ := slobGetFollows size align rep
    exact ⟨by rw [Mm.call, done]; rfl, by rw [Mm.call, done]; exact rep'⟩
  | put base =>
    obtain ⟨s', done, rep'⟩ := slobPutFollows base rep
    exact ⟨by rw [Mm.call, done]; rfl, by rw [Mm.call, done]; exact rep'⟩

theorem reachedView {origin : List Nat} {allowed : Mm → Call → Prop} {start s : Mm} {v₀ : View}
    (Keeps : View → Prop) (rep : Rep origin start v₀) (init : Keeps v₀)
    (step : ∀ s v c, Rep origin s v → Keeps v → allowed s c → Keeps (v.call c).2)
    (reached : Reached allowed start s) : ∃ v, Rep origin s v ∧ Keeps v := by
  induction reached with
  | start => exact ⟨v₀, rep, init⟩
  | step prior ok ih =>
    obtain ⟨v, rep, keeps⟩ := ih
    exact ⟨_, (callFollows _ rep).2, step _ v _ rep keeps ok⟩

def Mm.run (s : Mm) : List Call → Mm
  | [] => s
  | c :: rest => (s.call c).2.run rest

def Mm.Allows (allowed : Mm → Call → Prop) : Mm → List Call → Prop
  | _, [] => True
  | s, c :: rest => allowed s c ∧ (s.call c).2.Allows allowed rest

instance decideAllows (allowed : Mm → Call → Prop) [∀ s c, Decidable (allowed s c)] :
    (s : Mm) → (calls : List Call) → Decidable (s.Allows allowed calls)
  | _, [] => .isTrue trivial
  | s, c :: rest => @instDecidableAnd _ _ _ (decideAllows allowed (s.call c).2 rest)

theorem reachedRun {allowed : Mm → Call → Prop} {start s : Mm} {calls : List Call}
    (reached : Reached allowed start s) (allows : s.Allows allowed calls) : Reached allowed start (s.run calls) := by
  induction calls generalizing s with
  | nil => exact reached
  | cons c rest ih => exact ih (.step reached allows.1) allows.2

def Served (s : Mm) (c : Call) : Prop := c.Legal ∧ (s.call c).1 ≠ .error .noDescriptor

instance (s : Mm) (c : Call) : Decidable (Served s c) :=
  inferInstanceAs (Decidable (c.Legal ∧ _))

def smallBoot : InitialMemMng := bootMemMngInit 4096 0 4096

def smallPool (n : Nat) : BufferPool := ⟨65536, 8192, fun k => 65536 + sizeofMemBlock * k, sizeofMemBlock, n, 0, 0⟩

def Mm.initial (base size n : Nat) : Option Mm :=
  (slobInit (fun _ => ⟨0, 0, 0⟩) base size smallBoot (smallPool n)).bind (fun r => r.1.toOption)

theorem runReaches {base size n : Nat} {allowed : Mm → Call → Prop} [∀ s c, Decidable (allowed s c)]
    {P : Mm → Prop} [DecidablePred P] (calls : List Call)
    (test : (Mm.initial base size n).any (fun s => s.Allows allowed calls && P (s.run calls)) = true) :
    ∃ start s, Mm.initial base size n = some start ∧ Reached allowed start s ∧ P s := by
  obtain ⟨start, init, holds⟩ := (Option.any_eq_true _ _).mp test
  simp only [Bool.and_eq_true, decide_eq_true_eq] at holds
  exact ⟨start, _, init, reachedRun .start holds.1, holds.2⟩

theorem initialDone {base size n : Nat} {s : Mm} (init : Mm.initial base size n = some s) :
    ∃ boot, slobInit (fun _ => ⟨0, 0, 0⟩) base size smallBoot (smallPool n) = some (.ok s, boot) := by
  obtain ⟨⟨result, boot⟩, done, ok⟩ := Option.bind_eq_some_iff.mp init
  cases result with
  | error e => cases ok
  | ok s' =>
    cases ok
    exact ⟨boot, done⟩

end Flexbuild.Slob
