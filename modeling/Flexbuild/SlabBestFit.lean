import Flexbuild.FirstMinimum
import Flexbuild.SlabSections

/-! The search for a hardware pool on any table of pools. The loop reserves from every better
pool it meets and gives back to the one before, so its counters differ from those at the start
only at the pool it holds, and that pool is the first minimum of those that offer. -/
namespace Flexbuild.SlabBestFit
open Words Slab FirstMinimum

-- The part of `slab_module_info` that the search reads; `num_hw_pools` is one byte.
structure SlabModule where
  hwPools : List HwPool
  few : hwPools.length < 2 ^ 8

namespace SlabModule
variable (m : SlabModule)

def buffSize (i : Nat) : Nat := (m.hwPools[i]?.map HwPool.buffSize).getD 0

def poolId (i : Nat) : Nat := (m.hwPools[i]?.map HwPool.poolId).getD 0

def suits (need : Need) (i : Nat) : Bool :=
  match m.hwPools[i]? with
  | none => false
  | some p => decide (p.memPid = need.memPid) && decide (need.alignment ≤ p.alignment) &&
      decide (need.buffSize ≤ slabSizeGet p.buffSize)

def turn (need : Need) (at_ : Option Nat × (Nat → Int)) (i : Nat) : Option Nat × (Nat → Int) :=
  if m.suits need i then
    if (need.numBuffs : Int) ≤ at_.2 i then
      match at_.1 with
      | none => (some (wrap 16 i), Function.update at_.2 i (at_.2 i - need.numBuffs))
      | some bmanArrayIndex =>
        if m.buffSize bmanArrayIndex > m.buffSize i then
          let remaining := Function.update at_.2 i (at_.2 i - need.numBuffs)
          (some (wrap 16 i), Function.update remaining bmanArrayIndex (remaining bmanArrayIndex + int32 need.numBuffs))
        else at_
    else at_
  else at_

end SlabModule

-- The result holds what is written through `bpid` and `bpid_array_index`.
def slabFindAndReserveBpid (slabM : Option SlabModule) (need : Need) (remaining : Nat → Int) :
    Except Errno (Nat × Nat) × (Nat → Int) :=
  match slabM with
  | none => (.error .einval, remaining)
  | some m =>
    let done := (List.range m.hwPools.length).foldl (m.turn need) (none, remaining)
    match done.1 with
    | none => (.error .enomem, done.2)
    | some bmanArrayIndex => (.ok (m.poolId bmanArrayIndex, bmanArrayIndex), done.2)

variable (m : SlabModule) (need : Need) (remaining : Nat → Int)

def Offers (i : Nat) : Prop := ∃ p, m.hwPools[i]? = some p ∧ p.memPid = need.memPid ∧ need.alignment ≤ p.alignment ∧
  need.buffSize ≤ slabSizeGet p.buffSize ∧ (need.numBuffs : Int) ≤ remaining i

theorem offersIff (i : Nat) : Offers m need remaining i ↔ m.suits need i = true ∧ (need.numBuffs : Int) ≤ remaining i := by
  unfold Offers SlabModule.suits
  cases m.hwPools[i]? with
  | none => simp
  | some p => simp [and_assoc]

instance : DecidablePred (Offers m need remaining) := fun i => decidable_of_iff _ (offersIff m need remaining i).symm

def charged (found : Option Nat) : Nat → Int :=
  match found with
  | none => remaining
  | some j => Function.update remaining j (remaining j - need.numBuffs)

theorem chargedOther {found : Option Nat} {i : Nat} (other : found ≠ some i) :
    charged need remaining found i = remaining i := by
  cases found with
  | none => rfl
  | some j => exact Function.update_of_ne (fun same => other (congrArg some same.symm)) _ _

theorem turnCharged (small : need.numBuffs < 2 ^ 31) {found : Option Nat} {i : Nat} (inside : i < 2 ^ 16)
    (other : found ≠ some i) : m.turn need (found, charged need remaining found) i =
      (better (Offers m need remaining) m.buffSize found i,
        charged need remaining (better (Offers m need remaining) m.buffSize found i)) := by
  have untouched := chargedOther need remaining other
  by_cases offers : Offers m need remaining i
  · obtain ⟨suits, enough⟩ := (offersIff m need remaining i).mp offers
    cases found with
    | none =>
      rw [betterFirst offers]
      simp only [SlabModule.turn, if_pos suits, untouched, if_pos enough, wrapSmall inside]
      rfl
    | some j =>
      by_cases smaller : m.buffSize i < m.buffSize j
      · rw [betterSmaller offers smaller]
        simp only [SlabModule.turn, if_pos suits, untouched, if_pos enough, if_pos smaller, wrapSmall inside, int32Small small,
          Prod.mk.injEq, true_and]
        have apart : i ≠ j := fun same => other (congrArg some same.symm)
        funext k
        simp only [charged, Function.update_apply]
        split_ifs <;> simp_all
      · rw [betterKept smaller]
        simp only [SlabModule.turn, if_neg smaller, ite_self]
  · rw [betterSkip offers]
    by_cases suits : m.suits need i = true
    · have few : ¬(need.numBuffs : Int) ≤ remaining i := fun enough => offers ((offersIff m need remaining i).mpr ⟨suits, enough⟩)
      simp only [SlabModule.turn, if_pos suits, untouched, if_neg few]
    · simp only [SlabModule.turn, if_neg suits]

theorem searchCharged (small : need.numBuffs < 2 ^ 31) (n : Nat) (inside : n ≤ 2 ^ 16) :
    (List.range n).foldl (m.turn need) (none, remaining) =
      (firstMin (Offers m need remaining) m.buffSize n,
        charged need remaining (firstMin (Offers m need remaining) m.buffSize n)) := by
  induction n with
  | zero => rfl
  | succ n ih =>
    have other : firstMin (Offers m need remaining) m.buffSize n ≠ some n :=
      fun same => Nat.lt_irrefl n (firstMinSome same).below
    rw [List.range_succ, List.foldl_append, ih (by omega), firstMinStep]
    exact turnCharged m need remaining small inside other

theorem reservesBestFit (small : need.numBuffs < 2 ^ 31) :
    ((∃ i, Offers m need remaining i) → ∃ j, IsFirstMin (Offers m need remaining) m.buffSize m.hwPools.length j ∧
      slabFindAndReserveBpid (some m) need remaining =
        (.ok (m.poolId j, j), Function.update remaining j (remaining j - need.numBuffs))) ∧
    ((¬∃ i, Offers m need remaining i) → slabFindAndReserveBpid (some m) need remaining = (.error .enomem, remaining)) := by
  have few := m.few
  have search := searchCharged m need remaining small m.hwPools.length (by omega)
  constructor
  · rintro ⟨i, offers⟩
    have inside : i < m.hwPools.length := by
      obtain ⟨p, here, _⟩ := offers
      exact (List.getElem?_eq_some_iff.mp here).1
    cases found : firstMin (Offers m need remaining) m.buffSize m.hwPools.length with
    | none => exact absurd offers (firstMinNone.mp found i inside)
    | some j =>
      refine ⟨j, firstMinSome found, ?_⟩
      simp only [slabFindAndReserveBpid, search, found]
      rfl
  · intro nobody
    have found : firstMin (Offers m need remaining) m.buffSize m.hwPools.length = none :=
      firstMinNone.mpr fun i _ offers => nobody ⟨i, offers⟩
    simp only [slabFindAndReserveBpid, search, found]
    rfl

def threePools : SlabModule := ⟨[⟨520, 4, 64, 2⟩, ⟨264, 9, 64, 2⟩, ⟨264, 7, 64, 2⟩], by decide⟩

theorem reservesBestFitExample : slabFindAndReserveBpid (some threePools) ⟨5, 200, 8, 2⟩ (fun _ => 10) =
    (.ok (9, 1), Function.update (fun _ => 10) 1 5) := by
  obtain ⟨j, min, done⟩ := (reservesBestFit threePools ⟨5, 200, 8, 2⟩ (fun _ => 10) (by decide)).1 ⟨1, by decide⟩
  have second : j = 1 := by
    have below := min.below
    have first := min.first 1
    have least := min.least 1 (by decide) (by decide)
    change j < 3 at below
    match j, below with
    | 0, _ => exact absurd least (by decide)
    | 1, _ => rfl
    | 2, _ => exact absurd (first (by decide) (by decide)) (by decide)
  rw [done, second]
  rfl

-- On the table of an initialised module the search of the locked sections is this one.
theorem sectionsTurn (c : Config) (few : c.hwPools.length < 2 ^ 8) (found : Option Nat) (s : Globals) {i : Nat}
    (inside : i < 2 ^ 16) :
    ((reserveAt c need (found, s) i).1, (reserveAt c need (found, s) i).2.remaining) =
      (SlabModule.mk c.hwPools few).turn need (found, s.remaining) i := by
  have suits : (SlabModule.mk c.hwPools few).suits need i = c.fits need i := by
    unfold SlabModule.suits Config.fits
    cases c.hwPools[i]? with
    | none => rfl
    | some p => simp [Bool.decide_and, Bool.and_assoc]
  by_cases fits : c.fits need i = true
  · by_cases enough : (need.numBuffs : Int) ≤ s.remaining i
    · cases found with
      | none =>
        rw [reserveAtFirst ⟨fits, enough⟩]
        simp only [SlabModule.turn, suits, if_pos fits, if_pos enough, wrapSmall inside]
        rfl
      | some j =>
        by_cases smaller : c.buffSize i < c.buffSize j
        · have shrunk : (SlabModule.mk c.hwPools few).buffSize j > (SlabModule.mk c.hwPools few).buffSize i := smaller
          rw [reserveAtSmaller ⟨fits, enough⟩ smaller]
          simp only [SlabModule.turn, suits, if_pos fits, if_pos enough, wrapSmall inside, if_pos shrunk]
          rfl
        · have grown : ¬(SlabModule.mk c.hwPools few).buffSize j > (SlabModule.mk c.hwPools few).buffSize i := smaller
          rw [reserveAtLarger smaller]
          simp only [SlabModule.turn, if_neg grown, ite_self]
    · rw [reserveAtSkip fun offers => enough offers.2]
      simp only [SlabModule.turn, if_neg enough, ite_self]
  · rw [reserveAtSkip fun offers => fits offers.1]
    simp only [SlabModule.turn, suits, if_neg fits]

theorem sectionsSearch (c : Config) (few : c.hwPools.length < 2 ^ 8) (s : Globals) :
    ((Slab.slabFindAndReserveBpid c need s).1, (Slab.slabFindAndReserveBpid c need s).2.remaining) =
      (List.range c.hwPools.length).foldl ((SlabModule.mk c.hwPools few).turn need) (none, s.remaining) := by
  have loop : ∀ n ≤ c.hwPools.length,
      (((List.range n).foldl (reserveAt c need) (none, s)).1, ((List.range n).foldl (reserveAt c need) (none, s)).2.remaining) =
        (List.range n).foldl ((SlabModule.mk c.hwPools few).turn need) (none, s.remaining) := by
    intro n
    induction n with
    | zero => exact fun _ => rfl
    | succ n ih =>
      intro le
      rw [List.range_succ, List.foldl_append, List.foldl_append, ← ih (by omega)]
      exact sectionsTurn need c few _ _ (by omega)
  exact loop _ (le_refl _)

end Flexbuild.SlabBestFit
