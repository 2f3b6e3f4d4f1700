import Mathlib.Data.List.Basic
import Flexbuild.Words

/-! First fit in a line of spans. A packed list of spans is sorted and disjoint between two
addresses; a request goes to the first gap that has room for it at its alignment. -/
namespace Flexbuild.FirstFit
open Words

structure Span where
  offset : Nat
  len : Nat
  deriving DecidableEq, Repr

def Span.stop (b : Span) : Nat := b.offset + b.len

def Packed (high : Nat) : Nat → List Span → Prop
  | low, [] => low ≤ high
  | low, b :: bs => low ≤ b.offset ∧ 0 < b.len ∧ Packed high b.stop bs

def lastStop (low : Nat) (bs : List Span) : Nat := (bs.getLast?.map Span.stop).getD low

def firstFit (align size : Nat) : Nat → List Span → List Span × Nat × List Span
  | low, [] => ([], roundUp low align, [])
  | low, b :: bs =>
      if roundUp low align + size ≤ b.offset then ([], roundUp low align, b :: bs)
      else
        let found := firstFit align size b.stop bs
        (b :: found.1, found.2.1, found.2.2)

variable {align size low high x : Nat} {b : Span} {bs pre post : List Span}

theorem lastStopCons (b : Span) (bs : List Span) : lastStop low (b :: bs) = lastStop b.stop bs := by
  cases bs with
  | nil => rfl
  | cons c cs =>
    unfold lastStop
    rw [List.getLast?_cons_cons]
    cases last : (c :: cs).getLast? with
    | none => simp at last
    | some d => rfl

theorem packedAppend : Packed high low (pre ++ post) ↔
    Packed (lastStop low pre) low pre ∧ Packed high (lastStop low pre) post := by
  induction pre generalizing low with
  | nil => simp [Packed, lastStop]
  | cons b pre ih =>
    rw [lastStopCons]
    simp only [List.cons_append, Packed, ih, and_assoc]

theorem packedLe (packed : Packed high low bs) : low ≤ high := by
  induction bs generalizing low with
  | nil => exact packed
  | cons b bs ih =>
    have later := ih packed.2.2
    have first := packed.1
    unfold Span.stop at later
    omega

theorem packedHigher {higher : Nat} (le : high ≤ higher) (packed : Packed high low bs) :
    Packed higher low bs := by
  induction bs generalizing low with
  | nil => exact le_trans packed le
  | cons b bs ih => exact ⟨packed.1, packed.2.1, ih packed.2.2⟩

theorem packedLower {lower : Nat} (le : lastStop low bs ≤ lower) (packed : Packed high low bs) :
    Packed lower low bs := by
  induction bs generalizing low with
  | nil => exact le
  | cons b bs ih =>
    rw [lastStopCons] at le
    exact ⟨packed.1, packed.2.1, ih le packed.2.2⟩

theorem packedMember (packed : Packed high low bs) (mem : b ∈ bs) :
    low ≤ b.offset ∧ 0 < b.len ∧ b.stop ≤ high := by
  induction bs generalizing low with
  | nil => cases mem
  | cons c bs ih =>
    rcases List.mem_cons.mp mem with rfl | later
    · exact ⟨packed.1, packed.2.1, packedLe packed.2.2⟩
    · obtain ⟨above, positive, below⟩ := ih packed.2.2 later
      have first := packed.1
      unfold Span.stop at above
      exact ⟨by omega, positive, below⟩

theorem packedPairwise (packed : Packed high low bs) : bs.Pairwise (fun a b => a.stop ≤ b.offset) := by
  induction bs generalizing low with
  | nil => exact .nil
  | cons b bs ih =>
    exact .cons (fun c mem => (packedMember packed.2.2 mem).1) (ih packed.2.2)

theorem packedSorted (packed : Packed high low bs) : bs.Pairwise (fun a b => a.offset < b.offset) := by
  induction bs generalizing low with
  | nil => exact .nil
  | cons b bs ih =>
    refine .cons (fun c mem => ?_) (ih packed.2.2)
    have above := (packedMember packed.2.2 mem).1
    have positive := packed.2.1
    unfold Span.stop at above
    omega

theorem packedRemove (packed : Packed high low (pre ++ b :: post)) : Packed high low (pre ++ post) := by
  rw [packedAppend] at packed ⊢
  refine ⟨packed.1, ?_⟩
  have first := packed.2.1
  have positive := packed.2.2.1
  have later := packed.2.2.2
  cases post with
  | nil =>
    have end_ : b.stop ≤ high := later
    unfold Span.stop at end_
    exact (by omega : lastStop low pre ≤ high)
  | cons c post =>
    have next := later.1
    unfold Span.stop at next
    exact ⟨by omega, later.2⟩

structure Fit (align size low : Nat) (bs pre : List Span) (offset : Nat) (post : List Span) : Prop where
  split : bs = pre ++ post
  above : lastStop low pre ≤ offset
  aligned : align ∣ offset
  below : ∀ c rest, post = c :: rest → offset + size ≤ c.offset

theorem firstFitSound (align size low : Nat) (positive : 0 < align) (bs : List Span) :
    Fit align size low bs (firstFit align size low bs).1 (firstFit align size low bs).2.1
      (firstFit align size low bs).2.2 := by
  induction bs generalizing low with
  | nil =>
    exact ⟨rfl, leRoundUp low positive, dvdRoundUp low align, fun c rest no => by cases no⟩
  | cons b bs ih =>
    unfold firstFit
    split
    · rename_i room
      refine ⟨rfl, leRoundUp low positive, dvdRoundUp low align, ?_⟩
      intro c rest eq
      cases eq
      exact room
    · obtain ⟨split, above, aligned, below⟩ := ih b.stop
      refine ⟨by rw [List.cons_append, ← split], ?_, aligned, below⟩
      rw [lastStopCons]
      exact above

theorem firstFitLast (positive : 0 < align) (last : (firstFit align size low bs).2.2 = [])
    (multiple : align ∣ x) (after : low ≤ x) (clear : ∀ b ∈ bs, x + size ≤ b.offset ∨ b.stop ≤ x) :
    (firstFit align size low bs).2.1 ≤ x := by
  induction bs generalizing low with
  | nil => exact roundUpLe positive multiple after
  | cons b bs ih =>
    unfold firstFit at last ⊢
    split at last
    · cases last
    · rename_i full
      rw [if_neg full]
      have behind : b.stop ≤ x := by
        rcases clear b List.mem_cons_self with before | behind
        · have := roundUpLe positive multiple after
          omega
        · exact behind
      exact ih last behind (fun c mem => clear c (List.mem_cons_of_mem _ mem))

theorem firstFitBehind (last : (firstFit align size low bs).2.2 = []) :
    (firstFit align size low bs).2.1 = roundUp (lastStop low bs) align := by
  induction bs generalizing low with
  | nil => rfl
  | cons b bs ih =>
    unfold firstFit at last ⊢
    split at last
    · cases last
    · rename_i full
      rw [if_neg full, lastStopCons]
      exact ih last

theorem lastStopMember (bs : List Span) : lastStop low bs = low ∨ ∃ b ∈ bs, lastStop low bs = b.stop := by
  unfold lastStop
  cases last : bs.getLast? with
  | none => exact .inl rfl
  | some b => exact .inr ⟨b, List.mem_of_getLast? last, rfl⟩

theorem packedInsert {offset : Nat} (nonzero : 0 < size) (fit : Fit align size low bs pre offset post)
    (packed : Packed high low bs) (room : post = [] → offset + size ≤ high) :
    Packed high low (pre ++ ⟨offset, size⟩ :: post) := by
  rw [fit.split, packedAppend] at packed
  refine packedAppend.mpr ⟨packed.1, fit.above, nonzero, ?_⟩
  cases post with
  | nil => exact room rfl
  | cons c rest => exact ⟨fit.below c rest rfl, packed.2.2⟩

end Flexbuild.FirstFit
