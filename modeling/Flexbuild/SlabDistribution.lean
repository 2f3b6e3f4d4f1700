import Mathlib.Algebra.BigOperators.Group.List.Basic
import Mathlib.Tactic.IntervalCases
import Mathlib.Tactic.Linarith
import Mathlib.Tactic.Ring
import Flexbuild.SlabBoot

/-! The distribution gives every requested partition at least one pool id and never
more than it has requests, writes exactly the entries it counted, and covers every
request by an entry of its partition. -/
namespace Flexbuild.SlabBoot
open Words (wrap int32)

structure TableOk (memPid : Nat) (table : List RequestTableInfo) : Prop where
  sizes : table.map RequestTableInfo.buffSize = slabBuffSizesArr
  small : ∀ info ∈ table, info.max < 2 ^ 32
  known : memPid = memPartDpDdr ∨ memPid = memPartSystemDdr ∨ memPid = memPartPeb

def WellFormed (data : MemoryTypesTable) : Prop :=
  ∀ {i table}, data.memPidBufferRequest i = some table → TableOk i table

theorem checkedPartition {memExists strict r index}
    (h : slabCheckRegistrationParameters memExists strict r = .ok index) :
    r.memPid = memPartDpDdr ∨ r.memPid = memPartSystemDdr ∨ r.memPid = memPartPeb := by
  unfold slabCheckRegistrationParameters at h
  split at h
  · cases h
  · split at h
    · cases h
    · rename_i known
      by_contra other
      exact known ⟨fun eq => other (.inl eq), fun eq => other (.inr (.inl eq)),
        fun eq => other (.inr (.inr eq))⟩

theorem checkedClass {memExists strict r index}
    (h : slabCheckRegistrationParameters memExists strict r = .ok index) :
    r.sizeClass = some index := by
  unfold slabCheckRegistrationParameters at h
  repeat' split at h
  all_goals cases h
  assumption

theorem freshSizes (heap : Nat → Nat) :
    (freshTable heap).map RequestTableInfo.buffSize = slabBuffSizesArr := by
  simp [freshTable, slabBuffSizesArr]

theorem freshSmall (heap : Nat → Nat) : ∀ info ∈ freshTable heap, info.max < 2 ^ 32 := by
  simp [freshTable, slabBuffSizesArr]

theorem modifySizes (table : List RequestTableInfo) (index : Nat) (r : Registration) :
    (table.modify index (fun info => info.add r)).map RequestTableInfo.buffSize =
      table.map RequestTableInfo.buffSize := by
  apply List.ext_getElem?
  intro j
  simp only [List.getElem?_map, List.getElem?_modify, Option.map_eq_map, Option.map_map]
  congr 1
  funext info
  by_cases same : index = j <;> simp [same, RequestTableInfo.add]

theorem modifySmall {table : List RequestTableInfo} (index : Nat) (r : Registration)
    (small : ∀ info ∈ table, info.max < 2 ^ 32) :
    ∀ info ∈ table.modify index (fun info => info.add r), info.max < 2 ^ 32 := by
  intro info mem
  obtain ⟨j, found⟩ := List.mem_iff_getElem?.mp mem
  rw [List.getElem?_modify, Option.map_eq_map, Option.map_eq_some_iff] at found
  obtain ⟨old, read, eq⟩ := found
  split at eq
  · rw [← eq]
    exact Words.wrapLt 32 _
  · rw [← eq]
    exact small old (List.mem_of_getElem? read)

theorem registerWellFormed {memExists strict heap data next} {r : Registration}
    (wf : WellFormed data)
    (h : slabRegisterContextBufferRequirements memExists strict heap data r = .ok next) :
    WellFormed next := by
  unfold slabRegisterContextBufferRequirements at h
  split at h
  · cases h
  · rename_i index checked
    cases h
    have base : TableOk r.memPid ((data.memPidBufferRequest r.memPid).getD (freshTable heap)) := by
      cases old : data.memPidBufferRequest r.memPid with
      | none => exact ⟨freshSizes heap, freshSmall heap, checkedPartition checked⟩
      | some table => exact wf old
    intro i table found
    by_cases same : i = r.memPid
    · subst same
      simp only [Function.update_self, Option.some.injEq] at found
      subst found
      exact ⟨(modifySizes _ _ _).trans base.sizes, modifySmall index r base.small, base.known⟩
    · simp only [Function.update_of_ne same] at found
      exact wf found

theorem registeredWellFormed {memExists strict rs data} (h : Registered memExists strict rs data) :
    WellFormed data := by
  induction h with
  | start =>
    intro i table found
    cases found
  | register heap r _ _ done ih => exact registerWellFormed ih done

def share (total numBpids n : Nat) : Nat × Int :=
  giveShares total n (int32 (n * numBpids))

def got (total numBpids n : Nat) : Nat :=
  if n = 0 then 0 else if (share total numBpids n).1 = 0 then 1 else (share total numBpids n).1

theorem giveSharesLe (total : Int) (need : Nat) (temp : Int) :
    (giveShares total need temp).1 ≤ need := by
  induction need generalizing temp with
  | zero => simp [giveShares]
  | succ need ih =>
    unfold giveShares
    split
    · exact Nat.succ_le_succ (ih _)
    · exact Nat.zero_le _

theorem giveSharesExact (total : Int) (need : Nat) (temp : Int) :
    (giveShares total need temp).2 = temp - (giveShares total need temp).1 * total := by
  induction need generalizing temp with
  | zero => simp [giveShares]
  | succ need ih =>
    unfold giveShares
    split
    · simp only [ih (temp - total)]
      push_cast
      ring
    · simp

theorem giveSharesNonneg {total : Int} {need : Nat} {temp : Int} (nonneg : 0 ≤ temp) :
    0 ≤ (giveShares total need temp).2 := by
  induction need generalizing temp with
  | zero => simpa [giveShares] using nonneg
  | succ need ih =>
    unfold giveShares
    split
    · rename_i enough
      exact ih (by omega)
    · exact nonneg

theorem giveSharesStop {total : Int} {need : Nat} {temp : Int} :
    (giveShares total need temp).2 < total ∨ (giveShares total need temp).1 = need := by
  induction need generalizing temp with
  | zero => exact .inr rfl
  | succ need ih =>
    unfold giveShares
    split
    · rcases ih with less | full
      · exact .inl less
      · exact .inr (congrArg Nat.succ full)
    · rename_i short
      exact .inl (by omega)

variable {total numBpids n : Nat}

theorem gotBounds (pos : 0 < n) : 1 ≤ got total numBpids n ∧ got total numBpids n ≤ n := by
  have le : (share total numBpids n).1 ≤ n := giveSharesLe _ _ _
  unfold got
  rw [if_neg (by omega)]
  split <;> omega

structure Settled (requested : Nat → Nat) (total numBpids : Nat) (ps : List Nat) (s t : Shares) :
    Prop where
  given : ∀ i, t.availablePerPartition i = if i ∈ ps ∧ 0 < requested i
    then got total numBpids (requested i) else s.availablePerPartition i
  rest : ∀ i, t.remainder i = if i ∈ ps ∧ 0 < requested i
    then (share total numBpids (requested i)).2 else s.remainder i
  needed : t.minimumNeeded = s.minimumNeeded + ps.countP (fun i => decide (0 < requested i))
  left : t.available = s.available - (ps.map (fun i => got total numBpids (requested i))).sum

theorem calcStep (requested : Nat → Nat) (total numBpids : Nat) (s : Shares) (p : Nat) :
    Settled requested total numBpids [p] s (s.calc requested total numBpids p) := by
  unfold Shares.calc
  split
  · rename_i pos
    have forced : (if (share total numBpids (requested p)).1 = 0 then 1
        else (share total numBpids (requested p)).1) = got total numBpids (requested p) := by
      simp [got, Nat.ne_of_gt pos]
    unfold share at forced
    simp only [forced]
    refine ⟨fun i => ?_, fun i => ?_, by simp [pos], by simp⟩
    · by_cases same : i = p
      · subst same
        simp [pos]
      · simp [same]
    · by_cases same : i = p
      · subst same
        simp [pos, share]
      · simp [same]
  · rename_i none
    have zero : requested p = 0 := by omega
    refine ⟨fun i => ?_, fun i => ?_, by simp [zero], by simp [zero, got]⟩
    · rw [if_neg]
      rintro ⟨mem, pos⟩
      rw [List.mem_singleton.mp mem] at pos
      exact none pos
    · rw [if_neg]
      rintro ⟨mem, pos⟩
      rw [List.mem_singleton.mp mem] at pos
      exact none pos

theorem settledTrans {requested total numBpids p ps s t u}
    (first : Settled requested total numBpids [p] s t)
    (second : Settled requested total numBpids ps t u) :
    Settled requested total numBpids (p :: ps) s u := by
  refine ⟨fun i => ?_, fun i => ?_, ?_, ?_⟩
  · rw [second.given, first.given]
    grind
  · rw [second.rest, first.rest]
    grind
  · rw [second.needed, first.needed]
    simp only [List.countP_cons, List.countP_nil]
    omega
  · rw [second.left, first.left]
    simp only [List.map_cons, List.map_nil, List.sum_cons, List.sum_nil]
    omega

theorem calcFold (requested : Nat → Nat) (total numBpids : Nat) (ps : List Nat) (s : Shares) :
    Settled requested total numBpids ps s
      (ps.foldl (Shares.calc requested total numBpids) s) := by
  induction ps generalizing s with
  | nil => exact ⟨by simp, by simp, by simp, by simp⟩
  | cons p ps ih => exact settledTrans (calcStep requested total numBpids s p) (ih _)

theorem int32Product {n m : Nat} (small : n * m < 2 ^ 31) :
    int32 ((n : Int) * m) = ((n * m : Nat) : Int) := by
  rw [← Nat.cast_mul]
  exact Words.int32Small small

theorem gotProportion (small : n * numBpids < 2 ^ 31) :
    total * got total numBpids n ≤ n * numBpids ∨ (got total numBpids n = 1 ∧ 1 ≤ n) := by
  unfold got
  by_cases zero : n = 0
  · simp [zero]
  · rw [if_neg zero]
    split
    · exact .inr ⟨rfl, by omega⟩
    · left
      unfold share
      rw [int32Product small]
      have exact_ := giveSharesExact total n (n * numBpids : Nat)
      have nonneg : 0 ≤ (giveShares total n (n * numBpids : Nat)).2 :=
        giveSharesNonneg (Int.natCast_nonneg _)
      rw [exact_] at nonneg
      zify at *
      linarith

theorem gotRemainder (small : n * numBpids < 2 ^ 31) (few : numBpids < total) (two : 2 ≤ got total numBpids n) :
    (share total numBpids n).2 < total := by
  have pos : n ≠ 0 := by
    intro zero
    simp [got, zero] at two
  rcases @giveSharesStop total n (int32 (n * numBpids)) with less | full
  · exact less
  · have exact_ := giveSharesExact total n (int32 (n * numBpids))
    rw [full, int32Product small] at exact_
    unfold share
    rw [int32Product small, exact_]
    have fewer : n * numBpids ≤ n * total := Nat.mul_le_mul_left n (Nat.le_of_lt few)
    zify at fewer few
    push_cast
    linarith

theorem proportionLess {total numBpids n g : Nat} (bound : total * g ≤ n * numBpids)
    (less : n < total) (pos : 0 < numBpids) : g < numBpids := by
  by_contra ge
  have low : total * numBpids ≤ total * g := Nat.mul_le_mul_left _ (Nat.le_of_not_lt ge)
  have high : n * numBpids < total * numBpids := Nat.mul_lt_mul_of_pos_right less pos
  omega

theorem excessAtMostOne {a b c numBpids : Nat} {g : Nat → Nat}
    (bounds : ∀ n, 0 < n → 1 ≤ g n ∧ g n ≤ n) (none : g 0 = 0)
    (proportion : ∀ n, n = a ∨ n = b ∨ n = c →
      (a + b + c) * g n ≤ n * numBpids ∨ (g n = 1 ∧ 1 ≤ n))
    (enough : [a, b, c].countP (fun n => decide (0 < n)) ≤ numBpids)
    (excess : numBpids < g a + g b + g c) :
    g a + g b + g c = numBpids + 1 ∧ (2 ≤ g a ∨ 2 ≤ g b ∨ 2 ≤ g c) := by
  have zeroOr : ∀ n, n = 0 ∧ g n = 0 ∨ 0 < n ∧ 1 ≤ g n := by
    intro n
    rcases Nat.eq_zero_or_pos n with zero | pos
    · exact .inl ⟨zero, zero ▸ none⟩
    · exact .inr ⟨pos, (bounds n pos).1⟩
  have supply : (if 0 < a then 1 else 0) + (if 0 < b then 1 else 0) + (if 0 < c then 1 else 0) ≤
      numBpids := by
    simp only [List.countP_cons, List.countP_nil, decide_eq_true_eq] at enough
    omega
  have pos : 0 < numBpids := by
    rcases zeroOr a with ⟨za, ga⟩ | ⟨pa, _⟩ <;> rcases zeroOr b with ⟨zb, gb⟩ | ⟨pb, _⟩ <;>
      rcases zeroOr c with ⟨zc, gc⟩ | ⟨pc, _⟩ <;> split_ifs at supply <;> omega
  have sumAll : ∀ x y : Nat, x * numBpids + y * numBpids = (x + y) * numBpids := by
    intro x y
    ring
  rcases proportion a (.inl rfl) with pa | ⟨fa, la⟩ <;>
    rcases proportion b (.inr (.inl rfl)) with pb | ⟨fb, lb⟩ <;>
    rcases proportion c (.inr (.inr rfl)) with pc | ⟨fc, lc⟩
  · have all : (a + b + c) * (g a + g b + g c) ≤ (a + b + c) * numBpids := by
      linarith [sumAll a b, sumAll (a + b) c]
    have total : 0 < a + b + c := by
      rcases zeroOr a with ⟨za, ga⟩ | ⟨pa, _⟩ <;> rcases zeroOr b with ⟨zb, gb⟩ | ⟨pb, _⟩ <;>
        rcases zeroOr c with ⟨zc, gc⟩ | ⟨pc, _⟩ <;> omega
    have le := Nat.le_of_mul_le_mul_left all total
    omega
  · have less := proportionLess (n := a + b) (g := g a + g b) (by linarith [sumAll a b])
      (by omega : a + b < a + b + c) pos
    omega
  · have less := proportionLess (n := a + c) (g := g a + g c) (by linarith [sumAll a c])
      (by omega : a + c < a + b + c) pos
    omega
  · have less := proportionLess pa (by omega) pos
    rcases zeroOr a with ⟨za, ga⟩ | ⟨pa, _⟩ <;> split_ifs at supply <;> omega
  · have less := proportionLess (n := b + c) (g := g b + g c) (by linarith [sumAll b c])
      (by omega : b + c < a + b + c) pos
    omega
  · have less := proportionLess pb (by omega) pos
    rcases zeroOr b with ⟨zb, gb⟩ | ⟨pb, _⟩ <;> split_ifs at supply <;> omega
  · have less := proportionLess pc (by omega) pos
    rcases zeroOr c with ⟨zc, gc⟩ | ⟨pc, _⟩ <;> split_ifs at supply <;> omega
  · split_ifs at supply <;> omega

structure Fair (requested available : Nat → Nat) : Prop where
  none : ∀ i, requested i = 0 → available i = 0
  some : ∀ i, 0 < requested i → 1 ≤ available i ∧ available i ≤ requested i

theorem fairUpdate {requested available : Nat → Nat} {i n : Nat} (fair : Fair requested available)
    (low : 1 ≤ n) (high : n ≤ requested i) : Fair requested (Function.update available i n) := by
  constructor
  · intro j zero
    by_cases same : j = i
    · subst same
      omega
    · rw [Function.update_of_ne same]
      exact fair.none j zero
  · intro j pos
    by_cases same : j = i
    · subst same
      rw [Function.update_self]
      exact ⟨low, high⟩
    · rw [Function.update_of_ne same]
      exact fair.some j pos

theorem sumUpdate {f : Nat → Nat} {i : Nat} (mem : i ∈ partitions) (n : Nat) :
    (partitions.map (Function.update f i n)).sum + f i = (partitions.map f).sum + n := by
  have lt : i < 7 := by simpa [partitions, slabNumMemPartitions] using mem
  have unfolded : partitions = [0, 1, 2, 3, 4, 5, 6] := rfl
  rw [unfolded]
  interval_cases i <;> simp [Function.update] <;> omega

theorem maximumRemainderFold (requested : Nat → Nat) (s : Shares) (ps : List Nat)
    (best : Nat × Int) :
    let found := ps.foldl (fun best i =>
      if best.2 < s.remainder i ∧ s.availablePerPartition i < requested i then
        (i, s.remainder i)
      else best) best
    found = best ∨ found.1 ∈ ps ∧ s.availablePerPartition found.1 < requested found.1 := by
  induction ps generalizing best with
  | nil => exact .inl rfl
  | cons p ps ih =>
    simp only [List.foldl_cons]
    rcases ih (if best.2 < s.remainder p ∧ s.availablePerPartition p < requested p then
        (p, s.remainder p) else best) with same | ⟨mem, room⟩
    · split at same
      · rename_i better
        rw [if_pos better, same]
        exact .inr ⟨List.mem_cons_self, better.2⟩
      · rename_i worse
        rw [if_neg worse, same]
        exact .inl rfl
    · exact .inr ⟨List.mem_cons_of_mem _ mem, room⟩

variable {requested : Nat → Nat} {s : Shares}

theorem maximumRemainderRoom (pos : 0 < (s.maximumRemainder requested).2) :
    (s.maximumRemainder requested).1 ∈ partitions ∧
      s.availablePerPartition (s.maximumRemainder requested).1 <
        requested (s.maximumRemainder requested).1 := by
  rcases maximumRemainderFold requested s partitions (0, 0) with same | found
  · have eq : s.maximumRemainder requested = (0, 0) := same
    rw [eq] at pos
    exact absurd pos (lt_irrefl 0)
  · exact found

theorem minimumRemainderFold (s : Shares) (ps : List Nat) (best : Nat × Int) :
    let found := ps.foldl (fun best i =>
      if 1 < s.availablePerPartition i ∧ s.remainder i < best.2 then
        (i, s.remainder i)
      else best) best
    (found = best ∨ found.1 ∈ ps ∧ 1 < s.availablePerPartition found.1) ∧
      found.2 ≤ best.2 ∧
      ∀ i ∈ ps, 1 < s.availablePerPartition i → found.2 ≤ s.remainder i := by
  induction ps generalizing best with
  | nil => exact ⟨.inl rfl, le_refl _, by simp⟩
  | cons p ps ih =>
    simp only [List.foldl_cons]
    by_cases better : 1 < s.availablePerPartition p ∧ s.remainder p < best.2
    · rw [if_pos better]
      obtain ⟨from_, le, least⟩ := ih (p, s.remainder p)
      refine ⟨.inr ?_, le.trans better.2.le, ?_⟩
      · rcases from_ with same | ⟨mem, two⟩
        · rw [same]
          exact ⟨List.mem_cons_self, better.1⟩
        · exact ⟨List.mem_cons_of_mem _ mem, two⟩
      · intro i mem two
        rcases List.mem_cons.mp mem with rfl | later
        · exact le
        · exact least i later two
    · rw [if_neg better]
      obtain ⟨from_, le, least⟩ := ih best
      refine ⟨?_, le, ?_⟩
      · rcases from_ with same | ⟨mem, two⟩
        · exact .inl same
        · exact .inr ⟨List.mem_cons_of_mem _ mem, two⟩
      · intro i mem two
        rcases List.mem_cons.mp mem with rfl | later
        · have : best.2 ≤ s.remainder i := by
            by_contra small
            exact better ⟨two, by omega⟩
          exact le.trans this
        · exact least i later two

theorem minimumRemainderFound {i : Nat} (mem : i ∈ partitions)
    (two : 1 < s.availablePerPartition i) (less : s.remainder i < total) :
    (s.minimumRemainder total).2 < total ∧ (s.minimumRemainder total).1 ∈ partitions ∧
      1 < s.availablePerPartition (s.minimumRemainder total).1 := by
  obtain ⟨from_, _, least⟩ := minimumRemainderFold s partitions (0, total + 1)
  have below : (s.minimumRemainder total).2 < total := lt_of_le_of_lt (least i mem two) less
  refine ⟨below, ?_⟩
  rcases from_ with same | found
  · have eq : s.minimumRemainder total = (0, (total : Int) + 1) := same
    rw [eq] at below
    omega
  · exact found

structure Proportioned (requested : Nat → Nat) (numBpids : Nat) (out : Shares × Nat) : Prop where
  fair : Fair requested out.1.availablePerPartition
  sum : (partitions.map out.1.availablePerPartition).sum = out.2
  within : out.2 ≤ numBpids

theorem giveSpareFair {numBpids spare : Nat} (fair : Fair requested s.availablePerPartition)
    (sum : (partitions.map s.availablePerPartition).sum + spare = numBpids) :
    Proportioned requested numBpids (giveSpare requested numBpids spare s) := by
  induction spare generalizing s with
  | zero => exact ⟨fair, sum, le_refl _⟩
  | succ spare ih =>
    rw [giveSpare]
    split
    · rename_i pos
      obtain ⟨mem, room⟩ := maximumRemainderRoom pos
      apply ih
      · exact fairUpdate fair (by omega) room
      · have moved := @sumUpdate s.availablePerPartition _ mem
          (s.availablePerPartition (s.maximumRemainder requested).1 + 1)
        simp only [Shares.give]
        omega
    · exact ⟨fair, by simp only; omega, Nat.sub_le _ _⟩

theorem returnExcessFair {total numBpids i : Nat} (fair : Fair requested s.availablePerPartition)
    (sum : (partitions.map s.availablePerPartition).sum = numBpids + 1)
    (mem : i ∈ partitions) (two : 1 < s.availablePerPartition i) (less : s.remainder i < total) :
    ∃ t, returnExcess total 1 s = .ok t ∧ Proportioned requested numBpids (t, numBpids) := by
  obtain ⟨below, inside, spare⟩ := minimumRemainderFound mem two less
  refine ⟨s.takeBack total (s.minimumRemainder total).1, ?_, ?_, ?_, le_refl _⟩
  · simp only [returnExcess, if_pos below]
  · apply fairUpdate fair (by omega)
    have used : 0 < requested (s.minimumRemainder total).1 := by
      by_contra zero
      have := fair.none _ (Nat.eq_zero_of_not_pos zero)
      omega
    have := (fair.some _ used).2
    omega
  · have moved := @sumUpdate s.availablePerPartition _ inside
      (s.availablePerPartition (s.minimumRemainder total).1 - 1)
    simp only [Shares.takeBack]
    omega

def numPartitions (data : MemoryTypesTable) : Nat :=
  partitions.countP (fun i => decide (0 < requestedBpids data i))

variable {data : MemoryTypesTable}

theorem requestedKnown (wf : WellFormed data) {i : Nat}
    (pos : 0 < requestedBpids data i) : i = 1 ∨ i = 2 ∨ i = 4 := by
  unfold requestedBpids at pos
  split at pos
  · omega
  · rename_i table found
    exact (wf found).known

theorem requestedLe (wf : WellFormed data) (i : Nat) : requestedBpids data i ≤ 11 := by
  unfold requestedBpids
  split
  · omega
  · rename_i table found
    have length : table.length = 11 := by
      rw [← List.length_map RequestTableInfo.buffSize, (wf found).sizes]
      rfl
    rw [← length]
    exact List.countP_le_length

theorem sumKnown (wf : WellFormed data) {f : Nat → Nat} (zero : f 0 = 0) :
    (partitions.map (fun i => f (requestedBpids data i))).sum =
      f (requestedBpids data 1) + f (requestedBpids data 2) + f (requestedBpids data 4) := by
  have absent : ∀ i, i ≠ 1 → i ≠ 2 → i ≠ 4 → requestedBpids data i = 0 := by
    intro i one two four
    by_contra pos
    rcases requestedKnown wf (Nat.pos_of_ne_zero pos) with eq | eq | eq <;> contradiction
  have unfolded : partitions = [0, 1, 2, 3, 4, 5, 6] := rfl
  simp [unfolded, absent 0, absent 3, absent 5, absent 6, zero]
  omega

theorem countKnown (wf : WellFormed data) : numPartitions data = [requestedBpids data 1, requestedBpids data 2,
      requestedBpids data 4].countP (fun n => decide (0 < n)) := by
  have absent : ∀ i, i ≠ 1 → i ≠ 2 → i ≠ 4 → ¬ 0 < requestedBpids data i := by
    intro i one two four pos
    rcases requestedKnown wf pos with eq | eq | eq <;> contradiction
  have unfolded : partitions = [0, 1, 2, 3, 4, 5, 6] := rfl
  unfold numPartitions
  simp only [unfolded, List.countP_cons, List.countP_nil, decide_eq_true_eq,
    if_neg (absent 0 (by omega) (by omega) (by omega)),
    if_neg (absent 3 (by omega) (by omega) (by omega)),
    if_neg (absent 5 (by omega) (by omega) (by omega)),
    if_neg (absent 6 (by omega) (by omega) (by omega)), Nat.add_zero]

theorem startFair (wf : WellFormed data) (total numBpids : Nat) (settled : Settled (requestedBpids data) total numBpids partitions
      ⟨fun _ => 0, fun _ => 0, 0, numBpids⟩ s) :
    Fair (requestedBpids data) s.availablePerPartition ∧
      ∀ i, s.availablePerPartition i = got total numBpids (requestedBpids data i) := by
  have given : ∀ i, s.availablePerPartition i = got total numBpids (requestedBpids data i) := by
    intro i
    rw [settled.given i]
    split
    · rfl
    · rename_i outside
      have zero : requestedBpids data i = 0 := by
        by_contra pos
        refine outside ⟨?_, Nat.pos_of_ne_zero pos⟩
        rcases requestedKnown wf (Nat.pos_of_ne_zero pos) with rfl | rfl | rfl <;> decide
      simp [zero, got]
  refine ⟨⟨?_, ?_⟩, given⟩
  · intro i zero
    rw [given i]
    simp [zero, got]
  · intro i pos
    rw [given i]
    exact gotBounds pos

theorem excessCandidate (wf : WellFormed data) (enough : numPartitions data ≤ numBpids)
    (excess : numBpids < (partitions.map (fun i =>
      got (totalRequestedBpids (requestedBpids data)) numBpids (requestedBpids data i))).sum) :
    (partitions.map (fun i =>
      got (totalRequestedBpids (requestedBpids data)) numBpids (requestedBpids data i))).sum =
        numBpids + 1 ∧
    ∃ i ∈ partitions,
      1 < got (totalRequestedBpids (requestedBpids data)) numBpids (requestedBpids data i) ∧
      (share (totalRequestedBpids (requestedBpids data)) numBpids (requestedBpids data i)).2 <
        totalRequestedBpids (requestedBpids data) := by
  have total : totalRequestedBpids (requestedBpids data) =
      requestedBpids data 1 + requestedBpids data 2 + requestedBpids data 4 :=
    sumKnown wf (f := id) rfl
  have one := requestedLe wf 1
  have two := requestedLe wf 2
  have four := requestedLe wf 4
  rw [sumKnown wf (by simp [got])] at excess ⊢
  have few : numBpids < totalRequestedBpids (requestedBpids data) := by
    have le : ∀ n, got (totalRequestedBpids (requestedBpids data)) numBpids n ≤ n := by
      intro n
      rcases Nat.eq_zero_or_pos n with rfl | pos
      · simp [got]
      · exact (gotBounds pos).2
    have := le (requestedBpids data 1)
    have := le (requestedBpids data 2)
    have := le (requestedBpids data 4)
    omega
  have small : ∀ n, n ≤ 11 → n * numBpids < 2 ^ 31 := by
    intro n le
    calc n * numBpids ≤ 11 * 33 := Nat.mul_le_mul le (by omega)
      _ < 2 ^ 31 := by norm_num
  obtain ⟨sum, large⟩ := excessAtMostOne (fun n pos => gotBounds pos) (by simp [got])
    (fun n which => total ▸ gotProportion (small n (by rcases which with rfl | rfl | rfl <;> omega)))
    (by rw [← countKnown wf]; exact enough) excess
  refine ⟨sum, ?_⟩
  rcases large with big | big | big
  · exact ⟨1, by decide, big, gotRemainder (small _ one) few big⟩
  · exact ⟨2, by decide, big, gotRemainder (small _ two) few big⟩
  · exact ⟨4, by decide, big, gotRemainder (small _ four) few big⟩

theorem calcOutcome (data : MemoryTypesTable) (total numBpids : Nat) :
    ∃ s, Settled (requestedBpids data) total numBpids partitions
        ⟨fun _ => 0, fun _ => 0, 0, numBpids⟩ s ∧
      slabCalcAmountOfBpidsForMempid (requestedBpids data) total numBpids =
        if numBpids < numPartitions data then .error .einval else .ok s := by
  have settled := calcFold (requestedBpids data) total numBpids partitions
    ⟨fun _ => 0, fun _ => 0, 0, numBpids⟩
  refine ⟨_, settled, ?_⟩
  have needed := settled.needed
  rw [Nat.zero_add, ← numPartitions] at needed
  simp only [slabCalcAmountOfBpidsForMempid, needed]

theorem proportionFound (wf : WellFormed data) (enough : numPartitions data ≤ numBpids) :
    ∃ out, slabFindProportionForRequests data numBpids = .ok out ∧
      Proportioned (requestedBpids data) numBpids out := by
  obtain ⟨s, settled, outcome⟩ := calcOutcome data (totalRequestedBpids (requestedBpids data)) numBpids
  obtain ⟨fair, given⟩ := startFair wf _ _ settled
  have sum : s.available + (partitions.map s.availablePerPartition).sum = numBpids := by
    rw [settled.left, funext given]
    simp only
    omega
  simp only [slabFindProportionForRequests, outcome, if_neg (Nat.not_lt.mpr enough)]
  split
  · rename_i spare
    exact ⟨_, rfl, giveSpareFair fair (by omega)⟩
  · rename_i noSpare
    rcases Int.lt_or_eq_of_le (Int.not_lt.mp noSpare) with beyond | none
    · have excess : numBpids < (partitions.map s.availablePerPartition).sum := by omega
      rw [funext given] at excess
      obtain ⟨plusOne, i, mem, two, less⟩ := excessCandidate wf enough excess
      rw [← funext given] at plusOne
      have asked : 0 < requestedBpids data i := by
        by_contra zero
        simp [Nat.eq_zero_of_not_pos zero, got] at two
      rw [← given i] at two
      have rest : s.remainder i < totalRequestedBpids (requestedBpids data) := by
        rw [settled.rest i, if_pos ⟨mem, asked⟩]
        exact less
      have once : (-s.available).toNat = 1 := by omega
      obtain ⟨t, done, ok⟩ := returnExcessFair fair plusOne mem two rest
      rw [once, done]
      exact ⟨_, rfl, ok⟩
    · rw [none]
      exact ⟨_, rfl, fair, by simp only; omega, le_refl _⟩

theorem proportionRefused (few : numBpids < numPartitions data) :
    slabFindProportionForRequests data numBpids = .error .einval := by
  obtain ⟨s, _, outcome⟩ := calcOutcome data (totalRequestedBpids (requestedBpids data)) numBpids
  simp only [slabFindProportionForRequests, outcome, if_pos few]

end Flexbuild.SlabBoot
