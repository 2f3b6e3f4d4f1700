import Flexbuild.DmaRegion

/-! Every run of the allocator of a DMA region. As long as no rounding, no sum and no enlarged
array leaves its word or the region, the search of the source is first fit, so the buffers stay
packed below the array, and a refused request has no room. -/
namespace Flexbuild.Dma
open Words FirstFit

def effective (align : Nat) : Nat := if align = 0 then 1 else align

structure Tame (r : Region) (align size : Nat) : Prop where
  grows : 4 + 8 * (r.numbufs + 1) ≤ r.sz
  rounds : ∀ b ∈ r.entries, roundUp b.stop (effective align) < 2 ^ 32
  adds : ∀ b ∈ r.entries, roundUp b.stop (effective align) + size < 2 ^ 64

-- `aligns` remembers the alignment requested for the buffer at an offset.
structure Held where
  region : Region
  aligns : Nat → Nat

inductive Call where
  | memalign (align size : Nat)
  | free (ptr : Nat)
  deriving DecidableEq, Repr

def Held.call (addr : Nat) (s : Held) : Call → Held
  | .memalign align size =>
      match s.region.localMemalign align size with
      | none => s
      | some (offset, region) => ⟨region, Function.update s.aligns offset (effective align)⟩
  | .free ptr => { s with region := s.region.localFree addr ptr }

def Held.Admits (s : Held) : Call → Prop
  | .memalign align size => align < 2 ^ 64 ∧ 1 ≤ size ∧ size < 2 ^ 64 ∧
      ((effective align).isPowerOfTwo → Tame s.region align size)
  | .free _ => True

def Held.run (addr : Nat) : Held → List Call → Held
  | s, [] => s
  | s, c :: cs => (s.call addr c).run addr cs

def Held.Calm (addr : Nat) : Held → List Call → Prop
  | _, [] => True
  | s, c :: cs => s.Admits c ∧ (s.call addr c).Calm addr cs

structure Orderly (s : Held) : Prop where
  small : s.region.sz < 2 ^ 32
  fits : 4 + 8 * s.region.numbufs ≤ s.region.sz
  packed : Packed (s.region.sz - (4 + 8 * s.region.numbufs)) 0 s.region.entries
  aligned : ∀ b ∈ s.region.entries, (s.aligns b.offset).isPowerOfTwo ∧ s.aligns b.offset ∣ b.offset

section Rounding

variable {lastend align i : Nat}

theorem effectivePositive (align : Nat) : 0 < effective align := by
  unfold effective
  split <;> omega

theorem roundEndExact (power : align.isPowerOfTwo)
    (rounds : roundUp lastend align < 2 ^ 32) : roundEnd lastend align = roundUp lastend align := by
  obtain ⟨i, rfl⟩ := power
  have pos := Nat.two_pow_pos i
  have after := leRoundUp lastend pos
  obtain ⟨k, multiple⟩ := dvdRoundUp lastend (2 ^ i)
  rcases Nat.lt_or_ge 32 i with long | short
  · -- only a buffer end at zero is rounded to less than the alignment
    have steps : 2 ^ 32 ≤ 2 ^ i := Nat.pow_le_pow_right (by omega) (by omega)
    have zero : k = 0 := by
      by_contra nonzero
      have := Nat.le_mul_of_pos_right (2 ^ i) (Nat.pos_of_ne_zero nonzero)
      omega
    have mask : wrap 32 (2 ^ i - 1) = 2 ^ 32 - 1 := by
      obtain ⟨j, rfl⟩ : ∃ j, i = 32 + j := ⟨i - 32, by omega⟩
      have split : 2 ^ (32 + j) - 1 = 2 ^ 32 * (2 ^ j - 1) + (2 ^ 32 - 1) := by
        rw [pow_add, Nat.mul_sub, Nat.mul_one]
        have := Nat.two_pow_pos j
        have := Nat.le_mul_of_pos_right (2 ^ 32) this
        omega
      rw [wrap, split, Nat.mul_add_mod, Nat.mod_eq_of_lt (by omega)]
    rw [roundEnd, mask, Nat.sub_self, Nat.and_zero, multiple, zero, Nat.mul_zero]
  · have fits : 2 ^ i ≤ 2 ^ 32 := Nat.pow_le_pow_right (by omega) short
    have small : lastend + 2 ^ i - 1 < 2 ^ 32 := by
      have below := Nat.lt_div_mul_add (a := lastend + 2 ^ i - 1) pos
      obtain ⟨m, whole⟩ := Nat.pow_dvd_pow 2 short
      have room : roundUp lastend (2 ^ i) + 2 ^ i ≤ 2 ^ 32 := by
        rw [multiple, whole] at rounds ⊢
        have := Nat.lt_of_mul_lt_mul_left rounds
        rw [← Nat.mul_succ]
        exact Nat.mul_le_mul_left _ this
      unfold roundUp at room
      omega
    have mask : 2 ^ 32 - 1 - wrap 32 (2 ^ i - 1) = 2 ^ 32 - 2 ^ i := by
      rw [wrapSmall (by omega)]
      omega
    rw [roundEnd, mask, wrapSmall (by omega), maskLow short small, roundUp]

end Rounding

def Exact (align size lastend : Nat) : Prop :=
  lastend < 2 ^ 32 ∧ roundUp lastend align < 2 ^ 32 ∧ roundUp lastend align + size < 2 ^ 64

section Search

variable {r : Region} {align size : Nat}

theorem searchFirstFit (power : align.isPowerOfTwo) {left idx lastend : Nat}
    (exact : Exact align size lastend)
    (later : ∀ b ∈ r.entriesFrom idx left, Exact align size b.stop) :
    (r.search align size left idx lastend).1 =
        idx + (firstFit align size lastend (r.entriesFrom idx left)).1.length ∧
      (if (firstFit align size lastend (r.entriesFrom idx left)).2.2 = []
        then roundEnd (r.search align size left idx lastend).2 align
        else (r.search align size left idx lastend).2) =
        (firstFit align size lastend (r.entriesFrom idx left)).2.1 := by
  induction left generalizing idx lastend with
  | zero => exact ⟨rfl, roundEndExact power exact.2.1⟩
  | succ left ih =>
    rw [entriesFromCons] at later ⊢
    unfold Region.search firstFit
    rw [roundEndExact power exact.2.1, wrapSmall exact.2.2]
    by_cases room : roundUp lastend align + size ≤ (r.info idx).offset
    · rw [if_pos room, if_pos room]
      exact ⟨rfl, if_neg (by simp)⟩
    · rw [if_neg room, if_neg room]
      have next := later _ List.mem_cons_self
      rw [wrapSmall next.1]
      obtain ⟨index, offset⟩ := ih next (fun b mem => later b (List.mem_cons_of_mem _ mem))
      refine ⟨?_, offset⟩
      rw [index, List.length_cons]
      omega

end Search

section Requests

variable {s : Held} {align size : Nat}

def Region.room (r : Region) : Nat := r.sz - (4 + 8 * (r.numbufs + 1))

theorem entriesLast {r : Region} (some_ : r.numbufs ≠ 0) :
    r.entries.getLast? = some (r.info (r.numbufs - 1)) := by
  rw [List.getLast?_eq_getElem?, entriesLength, entriesGet (by omega)]

theorem memberSmall (orderly : Orderly s) {b : Span} (mem : b ∈ s.region.entries) :
    b.stop < 2 ^ 32 := by
  have below := (packedMember orderly.packed mem).2.2
  have := orderly.small
  omega

theorem boundaryExact (orderly : Orderly s) :
    s.region.boundary = lastStop 0 s.region.entries := by
  by_cases some_ : s.region.numbufs = 0
  · have none_ : s.region.entries = [] := by
      rw [← List.length_eq_zero_iff, entriesLength, some_]
    rw [Region.boundary, if_neg (by simpa using some_), none_]
    rfl
  · have last := entriesLast some_
    rw [Region.boundary, if_pos some_, lastStop, last,
      wrapSmall (memberSmall orderly (List.mem_of_getLast? last))]
    rfl

theorem placeExact (orderly : Orderly s) (tame : Tame s.region align size) :
    s.region.place s.region.numbufs = s.region.room := by
  have small := orderly.small
  exact minusExact tame.grows (by omega)

theorem memalignSearch (orderly : Orderly s) (tame : Tame s.region align size)
    (power : (effective align).isPowerOfTwo) :
    s.region.localMemalign align size =
      if s.region.room < lastStop 0 s.region.entries then none
      else
        let found := s.region.search (effective align) size s.region.numbufs 0 0
        if found.1 = s.region.numbufs then
          if s.region.room < wrap 64 (roundEnd found.2 (effective align) + size) then none
          else some (roundEnd found.2 (effective align),
            s.region.insert found.1 (roundEnd found.2 (effective align)) size)
        else some (found.2, s.region.insert found.1 found.2 size) := by
  have valid : effective align &&& (effective align - 1) = 0 :=
    (Nat.and_sub_one_eq_zero_iff_isPowerOfTwo (effectivePositive align).ne').mpr power
  rw [← placeExact orderly tame, ← boundaryExact orderly]
  unfold Region.localMemalign
  split
  · rfl
  · exact if_neg (not_not.mpr valid)

theorem startExact (sizeSmall : size < 2 ^ 64) : Exact (effective align) size 0 := by
  have zero : roundUp 0 (effective align) = 0 :=
    Nat.le_zero.mp (roundUpLe (effectivePositive align) (Nat.dvd_zero _) le_rfl)
  exact ⟨by omega, by omega, by omega⟩

theorem entriesExact (orderly : Orderly s) (tame : Tame s.region align size) :
    ∀ b ∈ s.region.entries, Exact (effective align) size b.stop :=
  fun b mem => ⟨memberSmall orderly mem, tame.rounds b mem, tame.adds b mem⟩

theorem behindSmall (orderly : Orderly s) (tame : Tame s.region align size)
    (sizeSmall : size < 2 ^ 64)
    (last : (firstFit (effective align) size 0 s.region.entries).2.2 = []) :
    (firstFit (effective align) size 0 s.region.entries).2.1 + size < 2 ^ 64 := by
  rw [firstFitBehind last]
  rcases lastStopMember s.region.entries with start | ⟨b, mem, stop⟩
  · rw [start]
    exact (startExact sizeSmall).2.2
  · rw [stop]
    exact (entriesExact orderly tame b mem).2.2

theorem memalignFirstFit (orderly : Orderly s) (tame : Tame s.region align size)
    (power : (effective align).isPowerOfTwo) (sizeSmall : size < 2 ^ 64) :
    s.region.localMemalign align size =
      let found := firstFit (effective align) size 0 s.region.entries
      if s.region.room < lastStop 0 s.region.entries ∨
          found.2.2 = [] ∧ s.region.room < found.2.1 + size then none
      else some (found.2.1, s.region.insert found.1.length found.2.1 size) := by
  obtain ⟨index, offset⟩ := searchFirstFit power (startExact sizeSmall) (entriesExact orderly tame)
  have sound := firstFitSound (effective align) size 0 (effectivePositive align) s.region.entries
  have small := behindSmall orderly tame sizeSmall
  have count := congrArg List.length sound.split
  rw [entriesLength, List.length_append] at count
  rw [memalignSearch orderly tame power]
  change _ = 0 + (firstFit (effective align) size 0 s.region.entries).1.length at index
  rw [Nat.zero_add] at index
  change (if (firstFit (effective align) size 0 s.region.entries).2.2 = [] then _ else _) =
    (firstFit (effective align) size 0 s.region.entries).2.1 at offset
  generalize firstFit (effective align) size 0 s.region.entries = found at *
  by_cases full : s.region.room < lastStop 0 s.region.entries
  · simp only [full, true_or, if_true]
  · simp only [full, if_false, false_or, index]
    by_cases last : found.2.2 = []
    · rw [if_pos last] at offset
      have tail : found.1.length = s.region.numbufs := by
        rw [count, last]
        rfl
      simp only [offset, wrapSmall (small last), last, true_and, if_pos tail]
    · rw [if_neg last] at offset
      have before : found.1.length ≠ s.region.numbufs := by
        have := List.length_pos_iff.mpr last
        omega
      simp only [offset, last, false_and, if_neg before, if_false]

theorem memalignKeeps (orderly : Orderly s) (tame : Tame s.region align size)
    (power : (effective align).isPowerOfTwo) (nonzero : 1 ≤ size) (sizeSmall : size < 2 ^ 64)
    {offset : Nat} {after : Region} (run : s.region.localMemalign align size = some (offset, after)) :
    Orderly ⟨after, Function.update s.aligns offset (effective align)⟩ := by
  rw [memalignFirstFit orderly tame power sizeSmall] at run
  have fit := firstFitSound (effective align) size 0 (effectivePositive align) s.region.entries
  generalize firstFit (effective align) size 0 s.region.entries = found at run fit
  simp only [Option.ite_none_left_eq_some, not_or, Nat.not_lt, not_and] at run
  obtain ⟨⟨below, room⟩, eq⟩ := run
  obtain ⟨pre, found, post⟩ := found
  simp only at fit room eq
  cases eq
  have grows := tame.grows
  have small := orderly.small
  have packed : Packed s.region.room 0 (pre ++ ⟨offset, size⟩ :: post) :=
    packedInsert nonzero fit (packedLower below orderly.packed) room
  have sizeFits : size < 2 ^ 32 := by
    have stop := (packedMember packed (List.mem_append_right _ List.mem_cons_self)).2.2
    unfold Span.stop Region.room at stop
    simp only at stop
    omega
  have few : s.region.numbufs + 1 < 2 ^ 32 := by omega
  have entries : (s.region.insert pre.length offset size).entries = pre ++ ⟨offset, size⟩ :: post := by
    have length := congrArg List.length fit.split
    rw [entriesLength, List.length_append] at length
    rw [insertEntries (by omega) few, wrapSmall sizeFits, fit.split, List.take_left, List.drop_left]
  have count : (s.region.insert pre.length offset size).numbufs = s.region.numbufs + 1 := wrapSmall few
  refine ⟨small, ?_, ?_, ?_⟩
  · rw [count]
    exact grows
  · rw [count, entries]
    exact packed
  · rw [entries]
    intro b mem
    simp only
    have others : b ∈ s.region.entries ∨ b = ⟨offset, size⟩ := by
      rw [fit.split]
      simpa [or_assoc, or_comm, or_left_comm] using mem
    by_cases same : b.offset = offset
    · rw [same, Function.update_self]
      exact ⟨power, fit.aligned⟩
    · rw [Function.update_of_ne same]
      rcases others with old | rfl
      · exact orderly.aligned b old
      · exact absurd rfl same

end Requests

section Frees

variable {r : Region} {s : Held} {offset : Nat} {b : Span} {pre post : List Span}

theorem freeFound {left idx : Nat} (split : r.entriesFrom idx left = pre ++ b :: post)
    (sorted : (pre ++ b :: post).Pairwise (fun a b => a.offset < b.offset)) :
    r.freeFrom b.offset left idx = r.remove (idx + pre.length) := by
  induction left generalizing idx pre with
  | zero =>
    have := congrArg List.length split
    simp [Region.entriesFrom] at this
  | succ left ih =>
    rw [entriesFromCons] at split
    unfold Region.freeFrom
    cases pre with
    | nil =>
      rw [List.nil_append, List.cons.injEq] at split
      rw [if_pos (by rw [split.1])]
      rfl
    | cons c pre =>
      rw [List.cons_append, List.cons.injEq] at split
      rw [List.cons_append, List.pairwise_cons] at sorted
      have less : (r.info idx).offset < b.offset := by
        rw [split.1]
        exact sorted.1 b (by simp)
      rw [if_neg (by omega), if_neg (by omega), ih split.2 sorted.2, List.length_cons]
      congr 1
      omega

theorem freeAbsent {left idx : Nat} (absent : ∀ b ∈ r.entriesFrom idx left, b.offset ≠ offset) :
    r.freeFrom offset left idx = r := by
  induction left generalizing idx with
  | zero => rfl
  | succ left ih =>
    rw [entriesFromCons] at absent
    unfold Region.freeFrom
    rw [if_neg (absent _ List.mem_cons_self), ih (fun b mem => absent b (List.mem_cons_of_mem _ mem)),
      ite_self]

theorem freeRemoves (orderly : Orderly s) (split : s.region.entries = pre ++ b :: post) :
    s.region.freeFrom b.offset s.region.numbufs 0 = s.region.remove pre.length ∧
      (s.region.remove pre.length).entries = pre ++ post := by
  have sorted := packedSorted orderly.packed
  have length := congrArg List.length split
  rw [entriesLength, List.length_append, List.length_cons] at length
  rw [split] at sorted
  refine ⟨by rw [freeFound split sorted, Nat.zero_add], ?_⟩
  rw [removeEntries (by omega), split, List.take_left, ← List.drop_drop, List.drop_left]
  rfl

theorem freeKeeps (orderly : Orderly s) (offset : Nat) :
    Orderly { s with region := s.region.freeFrom offset s.region.numbufs 0 } := by
  by_cases live : ∃ b ∈ s.region.entries, b.offset = offset
  · obtain ⟨b, mem, rfl⟩ := live
    obtain ⟨pre, post, split⟩ := List.append_of_mem mem
    obtain ⟨removed, entries⟩ := freeRemoves orderly split
    have fits := orderly.fits
    have count : (s.region.remove pre.length).numbufs = s.region.numbufs - 1 := rfl
    have packed := orderly.packed
    rw [split] at packed
    rw [removed]
    refine ⟨orderly.small, ?_, ?_, ?_⟩
    · simp only [count]
      exact le_trans (by omega) fits
    · simp only [entries, count]
      exact packedHigher (Nat.sub_le_sub_left (by omega) _) (packedRemove packed)
    · simp only [entries]
      intro c kept
      apply orderly.aligned c
      rw [split]
      exact List.mem_append.mpr ((List.mem_append.mp kept).imp_right (List.mem_cons_of_mem _))
  · rw [freeAbsent (fun b mem eq => live ⟨b, mem, eq⟩)]
    exact orderly

end Frees

section Runs

variable {addr : Nat} {s : Held}

theorem invalidRefused {r : Region} {align size : Nat} (invalid : ¬ (effective align).isPowerOfTwo) :
    r.localMemalign align size = none := by
  have nonzero : effective align &&& (effective align - 1) ≠ 0 := fun zero =>
    invalid ((Nat.and_sub_one_eq_zero_iff_isPowerOfTwo (effectivePositive align).ne').mp zero)
  unfold Region.localMemalign
  split
  · rfl
  · exact if_pos nonzero

theorem callKeeps (orderly : Orderly s) {c : Call} (admits : s.Admits c) : Orderly (s.call addr c) := by
  cases c with
  | memalign align size =>
    obtain ⟨-, nonzero, small, tame⟩ := admits
    cases run : s.region.localMemalign align size with
    | none =>
      simp only [Held.call, run]
      exact orderly
    | some found =>
      simp only [Held.call, run]
      by_cases power : (effective align).isPowerOfTwo
      · exact memalignKeeps orderly (tame power) power nonzero small run
      · rw [invalidRefused power] at run
        cases run
  | free ptr => exact freeKeeps orderly _

theorem runKeeps {cs : List Call} (orderly : Orderly s) (calm : s.Calm addr cs) :
    Orderly (s.run addr cs) := by
  induction cs generalizing s with
  | nil => exact orderly
  | cons c cs ih => exact ih (callKeeps orderly calm.1) calm.2

def Held.init (sz : Nat) (info : Nat → Span) : Held := ⟨.allocatorInit sz info, fun _ => 1⟩

theorem initOrderly {sz : Nat} (info : Nat → Span) (holds : 4 ≤ sz) (small : sz < 2 ^ 32) :
    Orderly (.init sz info) where
  small := small
  fits := holds
  packed := Nat.zero_le _
  aligned := fun b mem => by cases mem

def Region.Place (r : Region) (align size x : Nat) : Prop :=
  effective align ∣ x ∧ x + size ≤ r.room ∧ ∀ b ∈ r.entries, x + size ≤ b.offset ∨ b.stop ≤ x

structure Kept (addr : Nat) (s : Held) : Prop where
  sorted : s.region.entries.Pairwise (fun a b => a.offset < b.offset)
  disjoint : s.region.entries.Pairwise (fun a b => a.stop ≤ b.offset)
  aligned : ∀ b ∈ s.region.entries, (s.aligns b.offset).isPowerOfTwo ∧ s.aligns b.offset ∣ b.offset
  clear : ∀ b ∈ s.region.entries, b.stop + (4 + 8 * s.region.numbufs) ≤ s.region.sz
  freed : ∀ pre b post, s.region.entries = pre ++ b :: post →
    (s.region.localFree addr (addr + b.offset)).entries = pre ++ post
  ignored : ∀ ptr, ptr < 2 ^ 64 → minus 64 ptr addr < 2 ^ 32 →
    (∀ b ∈ s.region.entries, ptr ≠ addr + b.offset) → s.region.localFree addr ptr = s.region
  refused : ∀ align size, s.Admits (.memalign align size) → (effective align).isPowerOfTwo →
    s.region.localMemalign align size = none →
      s.region.room < lastStop 0 s.region.entries ∨ ∀ x, ¬ s.region.Place align size x

theorem refusedFull (orderly : Orderly s) {align size : Nat} (tame : Tame s.region align size)
    (power : (effective align).isPowerOfTwo) (small : size < 2 ^ 64)
    (none_ : s.region.localMemalign align size = none) :
    s.region.room < lastStop 0 s.region.entries ∨ ∀ x, ¬ s.region.Place align size x := by
  rw [memalignFirstFit orderly tame power small] at none_
  simp only [ite_eq_left_iff, reduceCtorEq, imp_false, not_not] at none_
  refine none_.imp_right fun full x place => ?_
  have first := firstFitLast (effectivePositive align) full.1 place.1 (Nat.zero_le x) place.2.2
  have inside := place.2.1
  have beyond := full.2
  omega

theorem orderlyKept (inside : addr + s.region.sz ≤ 2 ^ 64) (orderly : Orderly s) : Kept addr s where
  sorted := packedSorted orderly.packed
  disjoint := packedPairwise orderly.packed
  aligned := orderly.aligned
  clear := by
    intro b mem
    have below := (packedMember orderly.packed mem).2.2
    have fits := orderly.fits
    omega
  freed := by
    intro pre b post split
    have mem : b ∈ s.region.entries := by simp [split]
    have below := (packedMember orderly.packed mem).2.2
    have fits := orderly.fits
    have small := orderly.small
    unfold Span.stop at below
    have offset : wrap 32 (minus 64 (addr + b.offset) addr) = b.offset := by
      rw [minusExact (by omega) (by omega), Nat.add_sub_cancel_left, wrapSmall (by omega)]
    obtain ⟨removed, entries⟩ := freeRemoves orderly split
    rw [Region.localFree, offset, removed, entries]
  ignored := by
    intro ptr word near other
    rw [Region.localFree, wrapSmall near]
    apply freeAbsent
    intro b mem same
    apply other b mem
    have below := (packedMember orderly.packed mem).2.2
    have fits := orderly.fits
    unfold Span.stop at below
    have sum := wrapAddMinus word (show addr < 2 ^ 64 by omega)
    rw [← same, wrapSmall (by omega)] at sum
    exact sum.symm
  refused := by
    intro align size admits power none_
    exact refusedFull orderly (admits.2.2.2 power) power admits.2.2.1 none_

theorem memalignSize {r after : Region} {align size offset : Nat}
    (run : r.localMemalign align size = some (offset, after)) : after.sz = r.sz := by
  unfold Region.localMemalign at run
  dsimp only at run
  generalize (if align = 0 then 1 else align) = align at run
  split at run
  · cases run
  · split at run
    · cases run
    · split at run
      · split at run
        · cases run
        · cases run
          rfl
      · cases run
        rfl

theorem freeSize (r : Region) (offset left idx : Nat) : (r.freeFrom offset left idx).sz = r.sz := by
  induction left generalizing idx with
  | zero => rfl
  | succ left ih =>
    unfold Region.freeFrom
    split
    · rfl
    · split
      · rfl
      · exact ih (idx + 1)

theorem callSize (c : Call) : (s.call addr c).region.sz = s.region.sz := by
  cases c with
  | memalign align size =>
    cases run : s.region.localMemalign align size with
    | none => simp only [Held.call, run]
    | some found =>
      simp only [Held.call, run]
      exact memalignSize run
  | free ptr => exact freeSize _ _ _ _

theorem runSize (cs : List Call) : (s.run addr cs).region.sz = s.region.sz := by
  induction cs generalizing s with
  | nil => rfl
  | cons c cs ih => exact ih.trans (callSize c)

theorem regionKept {sz : Nat} (info : Nat → Span) (holds : 4 ≤ sz) (small : sz < 2 ^ 32)
    (inside : addr + sz ≤ 2 ^ 64) (cs : List Call) (calm : (Held.init sz info).Calm addr cs) :
    Kept addr ((Held.init sz info).run addr cs) := by
  have orderly := runKeeps (initOrderly info holds small) calm
  refine orderlyKept ?_ orderly
  rw [runSize]
  exact inside

end Runs

instance powerOfTwoDecidable (n : Nat) : Decidable n.isPowerOfTwo :=
  decidable_of_iff (n ≠ 0 ∧ n &&& (n - 1) = 0) Nat.ne_zero_and_sub_one_eq_zero_iff_isPowerOfTwo

theorem regionKeptGap :
    Kept 4096 ((Held.init 44 fun _ => ⟨0, 0⟩).run 4096 [.memalign 1 1, .memalign 16 8]) := by
  refine regionKept _ (by decide) (by decide) (by decide) _ ?_
  refine ⟨⟨by decide, by decide, by decide, fun _ => ⟨by decide, ?_, ?_⟩⟩,
    ⟨by decide, by decide, by decide, fun _ => ⟨by decide, ?_, ?_⟩⟩, trivial⟩ <;> decide

theorem gapUnused :
    let s := (Held.init 44 fun _ => ⟨0, 0⟩).run 4096 [.memalign 1 1, .memalign 16 8]
    s.region.entries = [⟨0, 1⟩, ⟨16, 8⟩] ∧ s.Admits (.memalign 1 1) ∧
      s.region.localMemalign 1 1 = none ∧
      ∃ x, effective 1 ∣ x ∧ Span.stop ⟨0, 1⟩ ≤ x ∧ x + 1 ≤ 16 := by
  refine ⟨by decide, ⟨by decide, by decide, by decide, fun _ => ⟨by decide, ?_, ?_⟩⟩, ?_, 1, ?_⟩
  · decide
  · decide
  · exact if_pos (by decide)
  · decide

end Flexbuild.Dma
