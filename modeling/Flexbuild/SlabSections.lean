import Flexbuild.SlabBooks

/-! What each locked section of the slab module does to the books. -/
namespace Flexbuild.Slab
open Words Ledgers

variable {c : Config} {total : Nat → Int} {s : Globals} {extra : Nat → Int} {busy : Place → Prop}

def setAside (found : Option Nat) (n : Nat) (i : Nat) : Int := if found = some i then n else 0

theorem setAsideNonneg (found : Option Nat) (n i : Nat) : 0 ≤ setAside found n i := by
  unfold setAside
  split <;> omega

theorem addAdd (s : Globals) (i : Nat) (m n : Int) : (s.add i m).add i n = s.add i (m + n) := by
  simp [Globals.add, Int.add_assoc]

theorem addZero (s : Globals) (i : Nat) : s.add i 0 = s := by
  simp [Globals.add]

theorem addComm (s : Globals) (i j : Nat) (m n : Int) : (s.add i m).add j n = (s.add j n).add i m := by
  by_cases same : i = j
  · subst same
    rw [addAdd, addAdd, Int.add_comm]
  · simp only [Globals.add, Function.update_of_ne same, Function.update_of_ne (Ne.symm same)]
    rw [Function.update_comm same]

def Globals.Offers (c : Config) (need : Need) (s : Globals) (i : Nat) : Prop :=
  c.fits need i = true ∧ (need.numBuffs : Int) ≤ s.remaining i

theorem startBooks (narrow : c.numClusters < 2 ^ 8) (filled : ∀ i, 0 ≤ total i) :
    Books c total (Globals.start total) (fun _ => 0) (fun _ => False) := by
  have word : ∀ j, j < c.last → .ddr (j / 64 + 1) (j % 64) ∈ c.places ∧
      (Globals.start total).stack j = idWord (j / 64 + 1) (j % 64) := by
    intro j below
    unfold Config.last slabMaxNumVpDdr at below
    refine ⟨ddrIn.mpr ?_, stackStart total (by omega)⟩
    unfold slabMaxNumVpDdr
    omega
  refine ⟨?_, filled, fun _ => le_refl 0, ?_, ?_, ?_, Nat.zero_le _, ?_, ?_⟩
  · intro i
    have charged : (Globals.start total).charged c i = 0 := owedZero (fun _ _ => chargeIdle rfl i)
    have management : (Globals.start total).management c i = 0 := owedZero (fun _ _ => rfl)
    rw [charged, management]
    show total i + 0 + 0 + 0 = total i
    omega
  · intro p live
    cases live
  · intro p isBusy
    exact isBusy.elim
  · rintro id (live | isBusy)
    · cases live
    · exact isBusy.elim
  · intro j _ below
    exact ⟨_, _, (word j below).1, (word j below).2, rfl, id⟩
  · intro j k _ belowJ _ belowK same
    obtain ⟨insideJ, wordJ⟩ := word j belowJ
    obtain ⟨insideK, wordK⟩ := word k belowK
    obtain ⟨_, _⟩ := idWordInjective narrow insideJ insideK (wordJ.symm.trans (same.trans wordK))
    omega

section Search

variable {need : Need} {i j : Nat}

theorem reserveAtFirst (offers : s.Offers c need i) :
    reserveAt c need (none, s) i = (some i, s.add i (-need.numBuffs)) := by
  unfold reserveAt
  unfold Globals.Offers at offers
  simp only [if_pos offers]

theorem reserveAtSmaller (offers : s.Offers c need i) (smaller : c.buffSize i < c.buffSize j) :
    reserveAt c need (some j, s) i =
      (some i, (s.add i (-need.numBuffs)).add j (int32 need.numBuffs)) := by
  unfold reserveAt
  unfold Globals.Offers at offers
  simp only [if_pos offers, if_pos smaller]

theorem reserveAtLarger (larger : ¬ c.buffSize i < c.buffSize j) :
    reserveAt c need (some j, s) i = (some j, s) := by
  unfold reserveAt
  simp only [if_neg larger, ite_self]

theorem reserveAtSkip {found : Option Nat} (refuses : ¬ s.Offers c need i) :
    reserveAt c need (found, s) i = (found, s) := by
  unfold reserveAt
  unfold Globals.Offers at refuses
  simp only [if_neg refuses]

theorem addSeek (s : Globals) (n i : Nat) (m : Int) : (s.seek n).add i m = (s.add i m).seek n := rfl

theorem reserveAtSeek (found : Option Nat) (s : Globals) (n : Nat) :
    reserveAt c need (found, s.seek n) i =
      ((reserveAt c need (found, s) i).1, (reserveAt c need (found, s) i).2.seek n) := by
  by_cases offers : s.Offers c need i
  · have sought : (s.seek n).Offers c need i := offers
    cases found with
    | none => rw [reserveAtFirst offers, reserveAtFirst sought, addSeek]
    | some j =>
      by_cases smaller : c.buffSize i < c.buffSize j
      · rw [reserveAtSmaller offers smaller, reserveAtSmaller sought smaller, addSeek, addSeek]
      · rw [reserveAtLarger smaller, reserveAtLarger smaller]
  · have refuses : ¬ (s.seek n).Offers c need i := offers
    rw [reserveAtSkip offers, reserveAtSkip refuses]

theorem reserveSeek (s : Globals) (n : Nat) :
    slabFindAndReserveBpid c need (s.seek n) =
      ((slabFindAndReserveBpid c need s).1, (slabFindAndReserveBpid c need s).2.seek n) := by
  unfold slabFindAndReserveBpid
  generalize (none : Option Nat) = found
  induction List.range c.hwPools.length generalizing found s with
  | nil => rfl
  | cons i rest ih =>
    rw [List.foldl_cons, List.foldl_cons, reserveAtSeek]
    obtain ⟨next, later⟩ := reserveAt c need (found, s) i
    exact ih later next

theorem findAndReserveEq (bounded : ∀ i, s.remaining i < 2 ^ 31) (need : Need) :
    slabFindAndReserveBpid c need s = (none, s) ∨
    ∃ j, j < c.hwPools.length ∧ slabFindAndReserveBpid c need s = (some j, s.add j (-need.numBuffs)) ∧
      (need.numBuffs : Int) ≤ s.remaining j := by
  unfold slabFindAndReserveBpid
  have loop : ∀ n, n ≤ c.hwPools.length →
      (List.range n).foldl (reserveAt c need) (none, s) = (none, s) ∨
      ∃ j, j < n ∧ (List.range n).foldl (reserveAt c need) (none, s) =
        (some j, s.add j (-need.numBuffs)) ∧ (need.numBuffs : Int) ≤ s.remaining j := by
    intro n
    induction n with
    | zero =>
      intro _
      exact .inl rfl
    | succ n ih =>
      intro le
      rw [List.range_succ, List.foldl_append, List.foldl_cons, List.foldl_nil]
      rcases ih (by omega) with none | ⟨j, before, eq, enough⟩
      · rw [none]
        by_cases offers : s.Offers c need n
        · exact .inr ⟨n, by omega, reserveAtFirst offers, offers.2⟩
        · exact .inl (reserveAtSkip offers)
      · rw [eq]
        have other : n ≠ j := by omega
        by_cases offers : (s.add j (-need.numBuffs)).Offers c need n
        · have untouched : (s.add j (-need.numBuffs)).remaining n = s.remaining n :=
            Function.update_of_ne other ..
          have plenty : (need.numBuffs : Int) ≤ s.remaining n := untouched ▸ offers.2
          by_cases smaller : c.buffSize n < c.buffSize j
          · have tiny : need.numBuffs < 2 ^ 31 := by
              have := bounded n
              omega
            refine .inr ⟨n, by omega, ?_, plenty⟩
            rw [reserveAtSmaller offers smaller, int32Small tiny, addComm, addAdd, Int.add_comm,
              Int.add_right_neg, addZero]
          · exact .inr ⟨j, by omega, reserveAtLarger smaller, enough⟩
        · exact .inr ⟨j, by omega, reserveAtSkip offers, enough⟩
  rcases loop c.hwPools.length (le_refl _) with none | ⟨j, below, found⟩
  · exact .inl none
  · exact .inr ⟨j, below, found⟩

theorem takeBooks (books : Books c total s extra busy) {i n : Nat} (enough : (n : Int) ≤ s.remaining i) :
    Books c total (s.add i (-n)) (fun j => extra j + setAside (some i) n j) busy := by
  refine booksAdd books (by omega) (fun j => ?_) ?_
  · by_cases same : j = i
    · subst same
      simp [setAside]
    · simp [setAside, same, Ne.symm same]
  · have := books.aside i
    have := setAsideNonneg (some i) n i
    omega

variable (small : ∀ i, total i < 2 ^ 31)
include small

theorem reserveAtBooks {found : Option Nat}
    (books : Books c total s (fun i => extra i + setAside found need.numBuffs i) busy)
    (aside : ∀ i, 0 ≤ extra i) (i : Nat) :
    Books c total (reserveAt c need (found, s) i).2
        (fun j => extra j + setAside (reserveAt c need (found, s) i).1 need.numBuffs j) busy ∧
      ((reserveAt c need (found, s) i).1 = found ∨ need.numBuffs < 2 ^ 31) := by
  have nonneg : ∀ f j, 0 ≤ extra j + setAside f need.numBuffs j := by
    intro f j
    have := aside j
    have := setAsideNonneg f need.numBuffs j
    omega
  by_cases offers : s.Offers c need i
  · have tiny : need.numBuffs < 2 ^ 31 := by
      have := remainingLe books i
      have := small i
      have := offers.2
      omega
    have taken := takeBooks books offers.2
    cases found with
    | none =>
      rw [reserveAtFirst offers]
      refine ⟨?_, .inr tiny⟩
      have nothing : (fun j => extra j + setAside none need.numBuffs j + setAside (some i) need.numBuffs j) =
          fun j => extra j + setAside (some i) need.numBuffs j := by
        funext j
        simp [setAside]
      exact nothing ▸ taken
    | some k =>
      by_cases smaller : c.buffSize i < c.buffSize k
      · rw [reserveAtSmaller offers smaller]
        refine ⟨?_, .inr tiny⟩
        rw [int32Small tiny]
        refine booksAdd taken ?_ (fun j => ?_) (nonneg _ _)
        · have := taken.nonneg k
          omega
        · by_cases same : j = k
          · subst same
            simp [setAside]
            omega
          · simp [setAside, same, Ne.symm same]
      · rw [reserveAtLarger smaller]
        exact ⟨books, .inl rfl⟩
  · rw [reserveAtSkip offers]
    exact ⟨books, .inl rfl⟩

end Search

section Create

theorem booksCount (books : Books c total s extra busy) (n : Nat) :
    Books c total (s.count n) extra busy :=
  ⟨books.balance, books.nonneg, books.aside, books.live, books.idle, books.used, books.within,
    books.ids, books.distinct⟩

theorem booksJam (books : Books c total s extra busy) : Books c total s.jam extra busy :=
  ⟨books.balance, books.nonneg, books.aside, books.live, books.idle, books.used, books.within,
    books.ids, books.distinct⟩

variable {q : Request} {index : Nat}

theorem giveBackBooks (books : Books c total s
    (fun i => extra i + setAside (some index) q.committedBuffs i) busy)
    (aside : ∀ i, 0 ≤ extra i) (tiny : q.committedBuffs < 2 ^ 31) :
    Books c total (giveBack q index s) extra busy := by
  unfold giveBack
  rw [int32Small tiny]
  refine booksAdd books ?_ (fun j => ?_) (aside _)
  · have := books.nonneg index
    omega
  · by_cases same : j = index
    · subst same
      simp [setAside]
    · simp [setAside, same, Ne.symm same]

theorem takeShramBooks (books : Books c total s extra busy) (max0 : q.maxBuffs ≠ 0)
    (typed : q.maxBuffs < 2 ^ 32) :
    takeShram q s = (none, s) ∨
    ∃ id bound n, takeShram q s = (some id, (s.set (.shram id)
        { s.vpool (.shram id) with maxBufs := bound }).count n) ∧ bound ≠ 0 ∧
      id < slabMaxNumVpShram ∧ q.inDdr = false ∧
      ¬ busy (.shram id) ∧ (s.vpool (.shram id)).live = false ∧
      Books c total ((s.set (.shram id) { s.vpool (.shram id) with maxBufs := bound }).count n)
        extra (fun p => busy p ∨ p = .shram id) := by
  unfold takeShram
  have nonzero : int32 q.maxBuffs ≠ 0 := mt (int32Zero typed) max0
  generalize int32 q.maxBuffs = bound at nonzero ⊢
  split
  · rename_i wanted
    split
    · exact .inl rfl
    · rename_i id found
      obtain ⟨zero, mem, _⟩ := List.find?_range_eq_some.mp found
      have zero : (s.vpool (.shram id)).maxBufs = 0 := of_decide_eq_true zero
      have inside : id < slabMaxNumVpShram := List.mem_range.mp mem
      have notLive : (s.vpool (.shram id)).live = false := by
        by_contra isLive
        exact books.used id (.inl (by simpa using isLive)) zero
      have notBusy : ¬ busy (.shram id) := fun isBusy => books.used id (.inr isBusy) zero
      refine .inr ⟨id, bound, _, rfl, nonzero, inside, wanted.1, notBusy, notLive, ?_⟩
      have claimed : Books c total
          (s.set (.shram id) { s.vpool (.shram id) with maxBufs := bound }) extra
          (fun p => busy p ∨ p = .shram id) := by
        refine booksSet books (shramIn.mpr inside) ?_ books.aside ?_ ?_ ?_ ?_ ?_
        · intro i
          rw [chargeIdle notLive, chargeIdle]
          exact notLive
        · intro isLive
          exact absurd (notLive.symm.trans isLive) Bool.false_ne_true
        · rintro p other (isBusy | same)
          · exact isBusy
          · exact absurd same other
        · intro _
          exact notLive
        · intro _ _ _
          exact nonzero
        · rintro ⟨_, _, _, _, _, same, _⟩
          cases same
      exact booksCount claimed _
  · exact .inl rfl

theorem freshBooks (narrow : c.numClusters < 2 ^ 8) (books : Books c total s
    (fun i => extra i + setAside (some index) q.committedBuffs i) busy)
    (aside : ∀ i, 0 ≤ extra i) (tiny : q.committedBuffs < 2 ^ 31) {p : Place} (own : busy p)
    {maxBufs : Int} (used : ∀ id, p = .shram id → maxBufs ≠ 0) :
    Books c total (s.set p (q.fresh maxBufs index)) extra (fun r => busy r ∧ r ≠ p) := by
  obtain ⟨inside, notLive⟩ := books.idle p own
  have off := notOnStack narrow books (.inr own)
  refine booksSet books inside ?_ aside ?_ ?_ ?_ ?_ ?_
  · intro i
    rw [chargeIdle notLive, VPool.charge, Request.fresh, setAside, int32Small tiny]
    simp only [true_and, Option.some.injEq]
    split <;> omega
  · intro _
    simp only [Request.fresh, int32Small tiny]
    omega
  · intro r _ isBusy
    exact isBusy.1
  · intro isBusy
    exact absurd rfl isBusy.2
  · intro id same _
    exact used id same
  · intro on
    exact absurd on off

theorem contextBooks {cluster j : Nat}
    (books : Books c total s (fun i => extra i + setAside (some j) 1 i) busy)
    (aside : ∀ i, 0 ≤ extra i) (valid : cluster ≤ c.numClusters)
    (empty : s.contextAddress cluster = none) :
    Books c total (s.provide cluster j) extra busy := by
  refine ⟨?_, books.nonneg, aside, books.live, books.idle, books.used, books.within, books.ids,
    books.distinct⟩
  intro i
  have moved : owed (Finset.range (c.numClusters + 1)) (managed i)
      (Function.update s.contextAddress cluster (some j)) =
      s.management c i - managed i (s.contextAddress cluster) + managed i (some j) :=
    owedUpdate (Finset.mem_range.mpr (by omega)) (some j)
  have balance := books.balance i
  have one : managed i (some j) = setAside (some j) 1 i := rfl
  have zero : managed i (s.contextAddress cluster) = 0 := by
    rw [empty]
    rfl
  show s.remaining i + s.charged c i + owed (Finset.range (c.numClusters + 1)) (managed i)
    (Function.update s.contextAddress cluster (some j)) + extra i = total i
  rw [moved, zero, one]
  omega

end Create

section Ddr

variable {q : Request} {index : Nat}

theorem unreserveEq {j : Nat} (inside : j < c.hwPools.length) (n : Nat) (s : Globals) :
    slabFindAndUnreserveBpid c n (c.poolId j) s = s.add j (int32 n) := by
  have found : c.hwPools.findIdx? (fun p => decide (p.poolId = c.poolId j)) = some j := by
    rw [List.findIdx?_eq_some_iff_getElem]
    refine ⟨inside, by simp [Config.poolId, inside], ?_⟩
    intro i before
    have other : c.hwPools[i].poolId ≠ c.hwPools[j].poolId := by
      intro same
      have first : i < (c.hwPools.map HwPool.poolId).length := by simpa using before.trans inside
      have second : j < (c.hwPools.map HwPool.poolId).length := by simpa using inside
      have : i = j := (@List.Nodup.getElem_inj_iff _ _ c.distinct i first j second).mp
        (by simpa using same)
      omega
    simpa [Config.poolId, inside] using other
  unfold slabFindAndUnreserveBpid
  rw [found]

theorem errorRecoverySeek (s : Globals) :
    errorRecovery q index (s.seek (s.pointer + 1)) = (giveBack q index s).jam := by
  unfold errorRecovery giveBack
  generalize int32 q.committedBuffs = back
  rfl

theorem ddrSectionCases (narrow : c.numClusters < 2 ^ 8) (bounded : ∀ i, s.remaining i < 2 ^ 31)
    {cluster id : Nat} (some_ : s.pointer < c.last) (valid : .ddr cluster id ∈ c.places)
    (word : s.stack s.pointer = idWord cluster id) (cdma : Bool) :
    (∃ j, s.contextAddress cluster = some j ∧ ddrSection c q index cdma s =
      (.made cluster id, makeDdr q index cluster id (s.seek (s.pointer + 1)))) ∨
    (s.contextAddress cluster = none ∧
      ((slabFindAndReserveBpid c c.managementNeed s).1 = none ∨ cdma = false) ∧
      ddrSection c q index cdma s = (.refused, (giveBack q index s).jam)) ∨
    (s.contextAddress cluster = none ∧ cdma = true ∧ ∃ j,
      (slabFindAndReserveBpid c c.managementNeed s).1 = some j ∧ 1 ≤ s.remaining j ∧
      ddrSection c q index cdma s = (.made cluster id, makeDdr q index cluster id
        (((s.add j (-1)).seek (s.pointer + 1)).provide cluster j))) := by
  obtain ⟨⟨_, top⟩, below⟩ := ddrIn.mp valid
  unfold slabMaxNumVpDdr at below
  obtain ⟨first, second⟩ := @decodeIdWord cluster id (by omega) (by omega)
  have same : (s.seek (s.pointer + 1)).contextAddress cluster = s.contextAddress cluster := rfl
  unfold ddrSection
  rw [if_neg (by omega)]
  simp only [word, first, second, same]
  cases context : s.contextAddress cluster with
  | some j => exact .inl ⟨j, rfl, rfl⟩
  | none =>
    simp only [reserveSeek]
    rcases findAndReserveEq bounded c.managementNeed with nothing | ⟨j, inside, found, enough⟩
    · rw [nothing]
      refine .inr (.inl ⟨trivial, .inl rfl, ?_⟩)
      rw [← errorRecoverySeek]
    · rw [found]
      cases cdma with
      | true => exact .inr (.inr ⟨trivial, rfl, j, rfl, enough, rfl⟩)
      | false =>
        have back : ((s.add j (-c.managementNeed.numBuffs)).seek (s.pointer + 1)).add j (int32 1) =
            s.seek (s.pointer + 1) :=
          congrArg (Globals.seek · (s.pointer + 1)) ((addAdd s j _ _).trans (addZero s j))
        refine .inr (.inl ⟨trivial, .inr rfl, ?_⟩)
        rw [← errorRecoverySeek, ← back]
        simp only [Bool.false_eq_true, if_false, unreserveEq inside]
        rfl

theorem ddrSectionBooks (narrow : c.numClusters < 2 ^ 8) (small : ∀ i, total i < 2 ^ 31)
    (books : Books c total s (fun i => extra i + setAside (some index) q.committedBuffs i) busy)
    (aside : ∀ i, 0 ≤ extra i) (tiny : q.committedBuffs < 2 ^ 31) (cdma : Bool) :
    Books c total (ddrSection c q index cdma s).2 extra busy ∧
      ((ddrSection c q index cdma s).2.vpool = s.vpool ∨
        ∃ cluster id, (s.vpool (.ddr cluster id)).live = false ∧
          (ddrSection c q index cdma s).2.vpool =
            Function.update s.vpool (.ddr cluster id) (q.fresh (int32 q.maxBuffs) index)) := by
  have back := giveBackBooks books aside tiny
  by_cases full : s.pointer = c.last
  · have answer : ddrSection c q index cdma s = (.full, giveBack q index s) := if_pos full
    rw [answer]
    exact ⟨back, .inl rfl⟩
  · have room : s.pointer < c.last := lt_of_le_of_ne books.within full
    have bounded : ∀ i, s.remaining i < 2 ^ 31 :=
      fun i => (remainingLe books i).trans_lt (small i)
    obtain ⟨cluster, id, valid, word, idle, free, popped⟩ := booksPop books room
    have others : ∀ r, busy r → (busy r ∨ r = .ddr cluster id) ∧ r ≠ .ddr cluster id := by
      intro r isBusy
      refine ⟨.inl isBusy, ?_⟩
      rintro rfl
      exact free isBusy
    have made : ∀ s', Books c total s' (fun i => extra i + setAside (some index) q.committedBuffs i)
        (fun r => busy r ∨ r = .ddr cluster id) →
        Books c total (makeDdr q index cluster id s') extra busy := by
      intro s' ready
      refine booksMono (freshBooks narrow ready aside tiny (.inr rfl) ?_) others
      intro _ other
      cases other
    rcases @ddrSectionCases c s q index narrow bounded cluster id room valid word cdma with
      ⟨j, _, answer⟩ | ⟨_, _, answer⟩ | ⟨empty, _, j, _, enough, answer⟩
    · rw [answer]
      exact ⟨made _ popped, .inr ⟨cluster, id, idle, rfl⟩⟩
    · rw [answer]
      exact ⟨booksJam back, .inl rfl⟩
    · rw [answer]
      refine ⟨made _ ?_, .inr ⟨cluster, id, idle, rfl⟩⟩
      have nonneg : ∀ i, 0 ≤ extra i + setAside (some index) q.committedBuffs i := books.aside
      have taken := @takeBooks c total (s.seek (s.pointer + 1)) _ _ popped j 1 enough
      exact contextBooks taken nonneg (ddrIn.mp valid).1.2 empty

end Ddr

section Free

def VPool.refund (v : VPool) (i : Nat) : Int := if v.bmanArrayIndex = i then v.committedBufs else 0

theorem chargeUnused {v : VPool} (live : v.live = true) (low : 0 ≤ v.committedBufs)
    (unused : v.allocatedBufs = 0) (i : Nat) : v.charge i = v.refund i := by
  unfold VPool.charge VPool.refund
  simp only [live, true_and, unused, max_eq_left low]

theorem refundBooks {v : VPool}
    (books : Books c total s (fun i => extra i + v.refund i) busy)
    (aside : ∀ i, 0 ≤ extra i) (low : 0 ≤ v.committedBufs) :
    Books c total (s.add v.bmanArrayIndex v.committedBufs) extra busy := by
  refine booksAdd books ?_ (fun i => ?_) (aside _)
  · have := books.nonneg v.bmanArrayIndex
    omega
  · unfold VPool.refund
    by_cases same : i = v.bmanArrayIndex
    · rw [if_pos same, if_pos same.symm]
      omega
    · rw [if_neg same, if_neg (Ne.symm same)]
      omega

variable {p : Place} {busy' : Place → Prop} (books : Books c total s extra busy) (live : (s.vpool p).live = true)
  (unused : (s.vpool p).allocatedBufs = 0)
include books live unused

theorem retireBooks (others : ∀ r, r ≠ p → busy' r → busy r)
    (unclaimed : ∀ id, p = .shram id → ¬ busy' p) (narrow : c.numClusters < 2 ^ 8) :
    Books c total (s.set p { s.vpool p with maxBufs := 0, live := false })
      (fun i => extra i + (s.vpool p).refund i) busy' := by
  obtain ⟨inside, low⟩ := books.live p live
  refine booksSet books inside ?_ ?_ ?_ others ?_ ?_ ?_
  · intro i
    rw [chargeUnused live low unused, chargeIdle rfl]
    omega
  · intro i
    have := books.aside i
    unfold VPool.refund
    split <;> omega
  · intro isLive
    cases isLive
  · intro _
    rfl
  · rintro id same (isLive | isBusy)
    · cases isLive
    · exact absurd isBusy (unclaimed id same)
  · intro on
    exact absurd on (notOnStack narrow books (.inl live))

end Free

section Buffers

variable {p : Place}

theorem chargeRecount {v : VPool} (live : v.live = true) (a : Int) (h : Nat) (i : Nat) :
    { v with allocatedBufs := a, held := h }.charge i =
      v.charge i + if i = v.bmanArrayIndex then
        max v.committedBufs a - max v.committedBufs v.allocatedBufs else 0 := by
  unfold VPool.charge
  by_cases same : i = v.bmanArrayIndex
  · rw [if_pos ⟨live, same.symm⟩, if_pos ⟨live, same.symm⟩, if_pos same]
    dsimp only
    omega
  · rw [if_neg (fun own => same own.2.symm), if_neg (fun own => same own.2.symm), if_neg same]
    omega

theorem acquireReserveCases (p : Place) (s : Globals) :
    acquireReserve p s = (none, s) ∨
    ((s.vpool p).allocatedBufs < (s.vpool p).committedBufs ∧
      acquireReserve p s = (some .committed, s.set p
        { s.vpool p with allocatedBufs := (s.vpool p).allocatedBufs + 1 })) ∨
    ((s.vpool p).committedBufs ≤ (s.vpool p).allocatedBufs ∧
      0 < s.remaining (s.vpool p).bmanArrayIndex ∧
      acquireReserve p s = (some .remaining, (s.add (s.vpool p).bmanArrayIndex (-1)).set p
        { s.vpool p with allocatedBufs := (s.vpool p).allocatedBufs + 1 })) := by
  unfold acquireReserve VPool.allocate
  dsimp only
  by_cases few : (s.vpool p).allocatedBufs < (s.vpool p).committedBufs
  · rw [if_pos few]
    exact .inr (.inl ⟨few, rfl⟩)
  · rw [if_neg few]
    by_cases beyond : (s.vpool p).allocatedBufs < (s.vpool p).maxBufs ∧
        0 < s.remaining (s.vpool p).bmanArrayIndex
    · rw [if_pos beyond]
      exact .inr (.inr ⟨by omega, beyond.2, rfl⟩)
    · rw [if_neg beyond]
      exact .inl rfl

variable (narrow : c.numClusters < 2 ^ 8) (books : Books c total s extra busy)
  (live : (s.vpool p).live = true)
include narrow books live

theorem recountBooks {extra' : Nat → Int} {a : Int} {h : Nat} (aside : ∀ i, 0 ≤ extra' i)
    (moved : ∀ i, extra' i = extra i + if i = (s.vpool p).bmanArrayIndex then
      max (s.vpool p).committedBufs (s.vpool p).allocatedBufs - max (s.vpool p).committedBufs a
      else 0) :
    Books c total (s.set p { s.vpool p with allocatedBufs := a, held := h }) extra' busy := by
  obtain ⟨inside, low⟩ := books.live p live
  refine booksSet books inside ?_ aside ?_ ?_ ?_ ?_ ?_
  · intro i
    rw [chargeRecount live, moved i]
    split <;> omega
  · intro _
    exact low
  · intro _ _ isBusy
    exact isBusy
  · intro isBusy
    exact (books.idle p isBusy).2
  · intro id same _
    subst same
    exact books.used id (.inl live)
  · intro on
    exact absurd on (notOnStack narrow books (.inl live))

theorem acquireReserveBooks : Books c total (acquireReserve p s).2 extra busy := by
  rcases acquireReserveCases p s with answer | ⟨few, answer⟩ | ⟨all, some_, answer⟩
  · rw [answer]
    exact books
  · rw [answer]
    refine recountBooks narrow books live books.aside (fun i => ?_)
    split <;> omega
  · rw [answer]
    have taken : Books c total (s.add (s.vpool p).bmanArrayIndex (-1))
        (fun i => extra i + if i = (s.vpool p).bmanArrayIndex then 1 else 0) busy := by
      refine booksAdd books (by omega) (fun i => ?_) ?_
      · split <;> omega
      · have := books.aside (s.vpool p).bmanArrayIndex
        split <;> omega
    refine recountBooks narrow taken live books.aside (fun i => ?_)
    show extra i = extra i + (if i = (s.vpool p).bmanArrayIndex then 1 else 0) +
      if i = (s.vpool p).bmanArrayIndex then max (s.vpool p).committedBufs (s.vpool p).allocatedBufs -
        max (s.vpool p).committedBufs ((s.vpool p).allocatedBufs + 1) else 0
    split <;> omega

theorem returnBooks {n : Int} {h : Nat}
    (counted : n = if (s.vpool p).committedBufs < (s.vpool p).allocatedBufs then 1 else 0) :
    Books c total ((s.set p { s.vpool p with
      allocatedBufs := (s.vpool p).allocatedBufs - 1, held := h }).add (s.vpool p).bmanArrayIndex n)
      extra busy := by
  have returned := @recountBooks c total s extra busy p narrow books live
    (fun i => extra i + if i = (s.vpool p).bmanArrayIndex then n else 0)
    ((s.vpool p).allocatedBufs - 1) h (fun i => ?_) (fun i => ?_)
  · refine booksAdd returned ?_ (fun i => ?_) (books.aside _)
    · have := returned.nonneg (s.vpool p).bmanArrayIndex
      split at counted <;> omega
    · omega
  · have := books.aside i
    split <;> split at counted <;> omega
  · split <;> split at counted <;> omega

end Buffers

end Flexbuild.Slab
