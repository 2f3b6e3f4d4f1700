import Mathlib.Data.Finset.Prod
import Mathlib.Data.Finset.Card
import Mathlib.Order.Interval.Finset.Nat
import Mathlib.Tactic.Linarith
import Flexbuild.SlabModel

/-! The books of the slab module. For each hardware pool, what remains, what the live pools and
the management buffers take, and what operations under way have set aside add up to its total;
every id is on the stack, in use or in somebody's hands. -/
namespace Flexbuild.Slab
open Words Ledgers

section Handles

theorem vpPoolGetEq (slab : Nat) : slabVpPoolGet slab = slab / 2 % 2 ^ 24 := by
  unfold slabVpPoolGet slabVpPoolMask
  rw [Nat.shiftRight_and_distrib, Nat.shiftRight_eq_div_pow, Nat.shiftRight_eq_div_pow]
  exact Nat.and_two_pow_sub_one_eq_mod _ 24

theorem clusterIdGetEq (vp : Nat) : slabClusterIdGet vp = vp / 2 ^ 15 % 2 ^ 8 := by
  unfold slabClusterIdGet
  rw [Nat.shiftRight_eq_div_pow]
  exact Nat.and_two_pow_sub_one_eq_mod _ 8

theorem poolIdGetEq (vp : Nat) : slabPoolIdGet vp = vp % 2 ^ 15 :=
  Nat.and_two_pow_sub_one_eq_mod _ 15

variable {cluster poolId : Nat}

theorem packedEq (narrow : cluster < 2 ^ 8) (small : poolId < 2 ^ 15) :
    slabClusterIdSet cluster ||| poolId = cluster * 2 ^ 15 + poolId := by
  have whole : slabClusterIdSet cluster = cluster <<< 15 := by
    unfold slabClusterIdSet
    rw [Nat.shiftLeft_eq]
    exact wrapSmall (by omega)
  rw [whole, ← Nat.shiftLeft_add_eq_or_of_lt small, Nat.shiftLeft_eq]

def idWord (cluster poolId : Nat) : Nat := wrap 32 ((slabClusterIdSet cluster ||| poolId) <<< 1)

theorem idWordEq (narrow : cluster < 2 ^ 8) (small : poolId < 2 ^ 15) :
    idWord cluster poolId = cluster * 2 ^ 16 + 2 * poolId := by
  unfold idWord
  rw [packedEq narrow small, Nat.shiftLeft_eq, wrapSmall (by omega)]
  omega

def handleOf (cluster poolId : Nat) : Nat := slabHwPoolCreate (slabClusterIdSet cluster ||| poolId)

theorem handleOfEq (narrow : cluster < 2 ^ 8) (small : poolId < 2 ^ 15) :
    handleOf cluster poolId = cluster * 2 ^ 16 + 2 * poolId + 1 := by
  unfold handleOf slabHwPoolCreate
  have mask : slabVpPoolMask >>> 1 = 2 ^ 24 - 1 := by decide
  rw [packedEq narrow small, mask, Nat.and_two_pow_sub_one_eq_mod, Nat.mod_eq_of_lt (by omega),
    wrapSmall (by rw [Nat.shiftLeft_eq]; omega), ← Nat.shiftLeft_add_eq_or_of_lt (by omega),
    Nat.shiftLeft_eq]
  omega

theorem decodeIdWord (narrow : cluster < 2 ^ 8) (small : poolId < 2 ^ 15) :
    slabClusterIdGet (slabVpPoolGet (idWord cluster poolId)) = cluster ∧
      slabPoolIdGet (slabVpPoolGet (idWord cluster poolId)) = poolId := by
  rw [idWordEq narrow small, vpPoolGetEq, clusterIdGetEq, poolIdGetEq]
  omega

theorem decodeHandle (narrow : cluster < 2 ^ 8) (small : poolId < 2 ^ 15) :
    slabClusterIdGet (slabVpPoolGet (handleOf cluster poolId)) = cluster ∧
      slabPoolIdGet (slabVpPoolGet (handleOf cluster poolId)) = poolId := by
  rw [handleOfEq narrow small, vpPoolGetEq, clusterIdGetEq, poolIdGetEq]
  omega

theorem stackStart (total : Nat → Int) {n : Nat} (narrow : n / 64 + 1 < 2 ^ 8) :
    (Globals.start total).stack n = idWord (n / 64 + 1) (n % 64) := by
  rw [idWordEq narrow (by omega)]
  unfold Globals.start slabMaxNumVpDdr
  simp only [Nat.shiftLeft_eq]
  exact wrapSmall (by omega)

end Handles

def Config.places (c : Config) : Finset Place :=
  ((Finset.range slabMaxNumVpShram).map ⟨.shram, fun _ _ same => Place.shram.inj same⟩).disjUnion
    ((Finset.Icc 1 c.numClusters ×ˢ Finset.range slabMaxNumVpDdr).map
      ⟨fun p => .ddr p.1 p.2, fun _ _ same => Prod.ext (Place.ddr.inj same).1 (Place.ddr.inj same).2⟩)
    (by
      rw [Finset.disjoint_left]
      intro p first second
      obtain ⟨_, _, rfl⟩ := Finset.mem_map.mp first
      obtain ⟨_, _, other⟩ := Finset.mem_map.mp second
      cases other)

theorem shramIn {c : Config} {id : Nat} : .shram id ∈ c.places ↔ id < slabMaxNumVpShram := by
  unfold Config.places
  simp only [Finset.mem_disjUnion, Finset.mem_map, Finset.mem_range]
  constructor
  · rintro (⟨_, below, same⟩ | ⟨_, _, other⟩)
    · cases same
      exact below
    · cases other
  · intro below
    exact .inl ⟨id, below, rfl⟩

theorem ddrIn {c : Config} {cluster id : Nat} :
    .ddr cluster id ∈ c.places ↔ (1 ≤ cluster ∧ cluster ≤ c.numClusters) ∧ id < slabMaxNumVpDdr := by
  unfold Config.places
  simp only [Finset.mem_disjUnion, Finset.mem_map, Finset.mem_product, Finset.mem_Icc,
    Finset.mem_range]
  constructor
  · rintro (⟨_, _, other⟩ | ⟨_, below, same⟩)
    · cases other
    · cases same
      exact below
  · intro below
    exact .inr ⟨(cluster, id), below, rfl⟩

def VPool.charge (i : Nat) (v : VPool) : Int :=
  if v.live = true ∧ v.bmanArrayIndex = i then max v.committedBufs v.allocatedBufs else 0

def managed (i : Nat) (address : Option Nat) : Int := if address = some i then 1 else 0

def Globals.charged (c : Config) (s : Globals) (i : Nat) : Int :=
  owed c.places (VPool.charge i) s.vpool

def Globals.management (c : Config) (s : Globals) (i : Nat) : Int :=
  owed (Finset.range (c.numClusters + 1)) (managed i) s.contextAddress

-- A free id: word `j` of the stack stands for a DDR pool nobody has.
def Globals.FreeId (c : Config) (s : Globals) (busy : Place → Prop) (j : Nat) : Prop :=
  ∃ cluster poolId, .ddr cluster poolId ∈ c.places ∧ s.stack j = idWord cluster poolId ∧
    (s.vpool (.ddr cluster poolId)).live = false ∧ ¬ busy (.ddr cluster poolId)

-- `extra` is what operations under way have set aside of each hardware pool, `busy` the
-- records they are working on.
structure Books (c : Config) (total : Nat → Int) (s : Globals) (extra : Nat → Int)
    (busy : Place → Prop) : Prop where
  balance : ∀ i, s.remaining i + s.charged c i + s.management c i + extra i = total i
  nonneg : ∀ i, 0 ≤ s.remaining i
  aside : ∀ i, 0 ≤ extra i
  live : ∀ p, (s.vpool p).live = true → p ∈ c.places ∧ 0 ≤ (s.vpool p).committedBufs
  idle : ∀ p, busy p → p ∈ c.places ∧ (s.vpool p).live = false
  used : ∀ id, (s.vpool (.shram id)).live = true ∨ busy (.shram id) →
    (s.vpool (.shram id)).maxBufs ≠ 0
  within : s.pointer ≤ c.last
  ids : ∀ j, s.pointer ≤ j → j < c.last → s.FreeId c busy j
  distinct : ∀ j k, s.pointer ≤ j → j < c.last → s.pointer ≤ k → k < c.last →
    s.stack j = s.stack k → j = k

section Charges

theorem chargeIdle {v : VPool} (idle : v.live = false) (i : Nat) : v.charge i = 0 :=
  if_neg (fun h => by rw [idle] at h; exact Bool.false_ne_true h.1)

theorem chargeNonneg {v : VPool} (low : v.live = true → 0 ≤ v.committedBufs) (i : Nat) :
    0 ≤ v.charge i := by
  unfold VPool.charge
  split
  · rename_i own
    exact (low own.1).trans (le_max_left _ _)
  · exact le_refl 0

end Charges

def Globals.OnStack (c : Config) (s : Globals) (p : Place) : Prop :=
  ∃ j cluster poolId, s.pointer ≤ j ∧ j < c.last ∧ p = .ddr cluster poolId ∧ p ∈ c.places ∧
    s.stack j = idWord cluster poolId

section Moves

variable {c : Config} {total : Nat → Int} {s : Globals} {extra extra' : Nat → Int}
  {busy busy' : Place → Prop}

theorem remainingLe (books : Books c total s extra busy) (i : Nat) : s.remaining i ≤ total i := by
  have charged : 0 ≤ s.charged c i :=
    owedNonneg (fun p _ => chargeNonneg (fun live => (books.live p live).2) i)
  have management : 0 ≤ s.management c i := by
    refine owedNonneg (fun k _ => ?_)
    unfold managed
    split <;> decide
  have := books.balance i
  have := books.aside i
  omega

theorem booksAdd (books : Books c total s extra busy) {i : Nat} {n : Int}
    (low : 0 ≤ s.remaining i + n)
    (moved : ∀ j, extra' j = extra j - if j = i then n else 0) (aside : 0 ≤ extra' i) :
    Books c total (s.add i n) extra' busy := by
  have left : ∀ j, (s.add i n).remaining j = s.remaining j + if j = i then n else 0 := by
    intro j
    by_cases same : j = i
    · subst same
      simp [Globals.add]
    · simp [Globals.add, same]
  refine ⟨?_, ?_, ?_, books.live, books.idle, books.used, books.within, books.ids, books.distinct⟩
  · intro j
    have := books.balance j
    rw [left j, moved j]
    show s.remaining j + _ + s.charged c j + s.management c j + _ = total j
    omega
  · intro j
    rw [left j]
    have := books.nonneg j
    split
    · rename_i same
      rw [same]
      exact low
    · omega
  · intro j
    by_cases same : j = i
    · rw [same]
      exact aside
    · have := books.aside j
      rw [moved j, if_neg same]
      omega

theorem booksSet (books : Books c total s extra busy) {p : Place} {v : VPool}
    (inside : p ∈ c.places)
    (moved : ∀ i, extra' i + v.charge i = extra i + (s.vpool p).charge i)
    (aside : ∀ i, 0 ≤ extra' i)
    (low : v.live = true → 0 ≤ v.committedBufs)
    (others : ∀ q, q ≠ p → busy' q → busy q)
    (own : busy' p → v.live = false)
    (used : ∀ id, p = .shram id → v.live = true ∨ busy' p → v.maxBufs ≠ 0)
    (off : s.OnStack c p → v.live = false ∧ ¬ busy' p) :
    Books c total (s.set p v) extra' busy' := by
  have self : (s.set p v).vpool p = v := Function.update_self ..
  have rest : ∀ q, q ≠ p → (s.set p v).vpool q = s.vpool q :=
    fun q other => Function.update_of_ne other ..
  refine ⟨?_, books.nonneg, aside, ?_, ?_, ?_, books.within, ?_, books.distinct⟩
  · intro i
    have charged : (s.set p v).charged c i = s.charged c i - (s.vpool p).charge i + v.charge i :=
      owedUpdate inside v
    have := books.balance i
    have := moved i
    rw [charged]
    show s.remaining i + _ + s.management c i + _ = total i
    omega
  · intro q isLive
    by_cases same : q = p
    · subst same
      rw [self] at isLive ⊢
      exact ⟨inside, low isLive⟩
    · rw [rest q same] at isLive ⊢
      exact books.live q isLive
  · intro q isBusy
    by_cases same : q = p
    · subst same
      rw [self]
      exact ⟨inside, own isBusy⟩
    · rw [rest q same]
      exact books.idle q (others q same isBusy)
  · intro id taken
    by_cases same : Place.shram id = p
    · subst same
      rw [self] at taken ⊢
      exact used id rfl taken
    · rw [rest _ same] at taken ⊢
      exact books.used id (taken.imp_right (others _ same))
  · intro j from_ below
    obtain ⟨cluster, poolId, valid, word, idle, free⟩ := books.ids j from_ below
    by_cases same : Place.ddr cluster poolId = p
    · subst same
      obtain ⟨notLive, notBusy⟩ := off ⟨j, cluster, poolId, from_, below, rfl, valid, word⟩
      exact ⟨cluster, poolId, valid, word, by rw [self]; exact notLive, notBusy⟩
    · exact ⟨cluster, poolId, valid, word, by rw [rest _ same]; exact idle,
        fun isBusy => free (others _ same isBusy)⟩

theorem booksMono (books : Books c total s extra busy) (fewer : ∀ q, busy' q → busy q) :
    Books c total s extra busy' :=
  ⟨books.balance, books.nonneg, books.aside, books.live, fun q isBusy => books.idle q (fewer q isBusy),
    fun id taken => books.used id (taken.imp_right (fewer _)), books.within,
    fun j from_ below => by
      obtain ⟨cluster, poolId, valid, word, idle, free⟩ := books.ids j from_ below
      exact ⟨cluster, poolId, valid, word, idle, fun isBusy => free (fewer _ isBusy)⟩,
    books.distinct⟩

theorem booksPop (books : Books c total s extra busy) (some_ : s.pointer < c.last) :
    ∃ cluster poolId, .ddr cluster poolId ∈ c.places ∧
      s.stack s.pointer = idWord cluster poolId ∧
      (s.vpool (.ddr cluster poolId)).live = false ∧ ¬ busy (.ddr cluster poolId) ∧
      Books c total (s.seek (s.pointer + 1)) extra
        (fun q => busy q ∨ q = .ddr cluster poolId) := by
  obtain ⟨cluster, poolId, valid, word, idle, free⟩ := books.ids s.pointer (le_refl _) some_
  refine ⟨cluster, poolId, valid, word, idle, free, books.balance, books.nonneg, books.aside,
    books.live, ?_, ?_, some_, ?_, ?_⟩
  · rintro q (isBusy | rfl)
    · exact books.idle q isBusy
    · exact ⟨valid, idle⟩
  · rintro id (isLive | isBusy | other)
    · exact books.used id (.inl isLive)
    · exact books.used id (.inr isBusy)
    · cases other
  · intro j from_ below
    have later : s.pointer < j := from_
    obtain ⟨cluster', poolId', valid', word', idle', free'⟩ := books.ids j (by omega) below
    refine ⟨cluster', poolId', valid', word', idle', ?_⟩
    rintro (isBusy | same)
    · exact free' isBusy
    · cases same
      have := books.distinct j s.pointer (by omega) below (le_refl _) some_ (word'.trans word.symm)
      omega
  · intro j k fromJ belowJ fromK belowK
    have laterJ : s.pointer < j := fromJ
    have laterK : s.pointer < k := fromK
    exact books.distinct j k (by omega) belowJ (by omega) belowK

variable (narrow : c.numClusters < 2 ^ 8)
include narrow

theorem idWordInjective {a b x y : Nat} (first : .ddr a x ∈ c.places) (second : .ddr b y ∈ c.places)
    (same : idWord a x = idWord b y) : a = b ∧ x = y := by
  obtain ⟨⟨_, la⟩, lx⟩ := ddrIn.mp first
  obtain ⟨⟨_, lb⟩, ly⟩ := ddrIn.mp second
  unfold slabMaxNumVpDdr at lx ly
  rw [idWordEq (by omega) (by omega), idWordEq (by omega) (by omega)] at same
  omega

theorem notOnStack (books : Books c total s extra busy) {p : Place}
    (taken : (s.vpool p).live = true ∨ busy p) : ¬ s.OnStack c p := by
  rintro ⟨j, cluster, poolId, from_, below, rfl, valid, word⟩
  obtain ⟨cluster', poolId', valid', word', idle, free⟩ := books.ids j from_ below
  obtain ⟨rfl, rfl⟩ := idWordInjective narrow valid valid' (word.symm.trans word')
  rcases taken with isLive | isBusy
  · rw [idle] at isLive
    cases isLive
  · exact free isBusy

theorem stackRoom (books : Books c total s extra busy) {cluster poolId : Nat}
    (own : busy (.ddr cluster poolId)) : 0 < s.pointer := by
  by_contra bottom
  have zero : s.pointer = 0 := by omega
  let decode : Nat → Nat × Nat := fun j =>
    (slabClusterIdGet (slabVpPoolGet (s.stack j)), slabPoolIdGet (slabVpPoolGet (s.stack j)))
  let all : Finset (Nat × Nat) := Finset.Icc 1 c.numClusters ×ˢ Finset.range slabMaxNumVpDdr
  obtain ⟨inside, _⟩ := books.idle _ own
  have member : (cluster, poolId) ∈ all := by
    have := ddrIn.mp inside
    simp only [all, Finset.mem_product, Finset.mem_Icc, Finset.mem_range]
    exact this
  have decoded : ∀ j, j < c.last → ∃ a x, .ddr a x ∈ c.places ∧ s.stack j = idWord a x ∧
      decode j = (a, x) ∧ ¬ busy (.ddr a x) := by
    intro j below
    obtain ⟨a, x, valid, word, _, free⟩ := books.ids j (by omega) below
    obtain ⟨⟨_, la⟩, lx⟩ := ddrIn.mp valid
    unfold slabMaxNumVpDdr at lx
    obtain ⟨first, second⟩ := @decodeIdWord a x (by omega) (by omega)
    exact ⟨a, x, valid, word, by simp only [decode, word, first, second], free⟩
  have count : (Finset.range c.last).card ≤ (all.erase (cluster, poolId)).card := by
    apply Finset.card_le_card_of_injOn decode
    · intro j mem
      obtain ⟨a, x, valid, _, eq, free⟩ := decoded j (Finset.mem_range.mp mem)
      rw [eq]
      apply Finset.mem_coe.mpr
      apply Finset.mem_erase.mpr
      refine ⟨?_, ?_⟩
      · intro same
        cases same
        exact free own
      · have := ddrIn.mp valid
        simp only [all, Finset.mem_product, Finset.mem_Icc, Finset.mem_range]
        exact this
    · intro j memJ k memK same
      obtain ⟨a, x, _, wordJ, eqJ, _⟩ := decoded j (Finset.mem_range.mp memJ)
      obtain ⟨b, y, _, wordK, eqK, _⟩ := decoded k (Finset.mem_range.mp memK)
      rw [eqJ, eqK] at same
      cases same
      exact books.distinct j k (by omega) (Finset.mem_range.mp memJ) (by omega)
        (Finset.mem_range.mp memK) (wordJ.trans wordK.symm)
  rw [Finset.card_range, Finset.card_erase_of_mem member] at count
  have size : all.card = c.last := by
    simp only [all, Finset.card_product, Nat.card_Icc, Finset.card_range, Config.last]
    rw [Nat.add_sub_cancel, Nat.mul_comm]
  have positive : 0 < all.card := Finset.card_pos.mpr ⟨_, member⟩
  omega

theorem booksPush (books : Books c total s extra busy) {cluster poolId : Nat}
    (own : busy (.ddr cluster poolId)) :
    Books c total (s.push (idWord cluster poolId)) extra
        (fun q => busy q ∧ q ≠ .ddr cluster poolId) := by
  have room := stackRoom narrow books own
  have within := books.within
  obtain ⟨inside, idle⟩ := books.idle _ own
  refine ⟨books.balance, books.nonneg, books.aside, books.live,
    fun q isBusy => books.idle q isBusy.1,
    fun id taken => books.used id (taken.imp_right And.left), (Nat.sub_le _ _).trans within, ?_, ?_⟩
  · intro j from_ below
    by_cases top : j = s.pointer - 1
    · subst top
      exact ⟨cluster, poolId, inside, Function.update_self .., idle, fun isBusy => isBusy.2 rfl⟩
    · have pushed : s.pointer - 1 ≤ j := from_
      have old : s.pointer ≤ j := by omega
      obtain ⟨a, x, valid, word, notLive, free⟩ := books.ids j old below
      exact ⟨a, x, valid, (Function.update_of_ne top ..).trans word, notLive,
        fun isBusy => free isBusy.1⟩
  · -- The pushed id is new: all others stand for pools nobody has.
    have fresh : ∀ j, s.pointer ≤ j → j < c.last → s.stack j ≠ idWord cluster poolId := by
      intro j from_ below same
      exact notOnStack narrow books (.inr own) ⟨j, cluster, poolId, from_, below, rfl, inside, same⟩
    intro j k fromJ belowJ fromK belowK same
    simp only [Globals.push] at fromJ fromK same
    by_cases topJ : j = s.pointer - 1
    · by_cases topK : k = s.pointer - 1
      · omega
      · rw [topJ, Function.update_self, Function.update_of_ne topK] at same
        exact absurd same.symm (fresh k (by omega) belowK)
    · by_cases topK : k = s.pointer - 1
      · rw [topK, Function.update_self, Function.update_of_ne topJ] at same
        exact absurd same (fresh j (by omega) belowJ)
      · rw [Function.update_of_ne topJ, Function.update_of_ne topK] at same
        exact books.distinct j k (by omega) belowJ (by omega) belowK same

end Moves

end Flexbuild.Slab
