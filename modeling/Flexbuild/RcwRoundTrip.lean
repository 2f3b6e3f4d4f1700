import Mathlib
import Flexbuild.PbiRoundTrip
import Flexbuild.RcwModel

/-! Printing a compiled RCW. The number that `createBinary` builds is the image of the values of
the fields, and `createSource` reads the same bits turned round, field by field; the turns of
descending fields, of ascending fields and of bytes cancel for every table of disjoint fields. -/
namespace Flexbuild.Rcw
open Numerals BitStrings

structure Table (size : Nat) (symbols : List Field) : Prop where
  named : ∀ s ∈ symbols, s.name ≠ [] ∧ ∀ c ∈ s.name, isName c = true
  inside : ∀ s ∈ symbols, s.high < size
  distinct : symbols.Pairwise fun s t => s.name ≠ t.name
  disjoint : symbols.Pairwise fun s t => s.high < t.low ∨ t.high < s.low

structure Values (symbols : List Field) (assignments : List (Text × Nat)) : Prop where
  distinct : (assignments.map Prod.fst).Nodup
  fits : ∀ a ∈ assignments, ∃ s ∈ symbols, s.name = a.1 ∧ a.2 < 2 ^ s.width

def valueOf : List (Text × Nat) → Text → Nat
  | [], _ => 0
  | (n, v) :: rest, m => if n = m then v else valueOf rest m

def Field.encoded (s : Field) (v : Nat) : Nat := if s.low ≠ s.first then mirror s.width v else v

def Field.term (size : Nat) (s : Field) (v : Nat) : Nat := s.encoded v <<< (size - 1 - s.high)

def image (size : Nat) (symbols : List Field) (f : Text → Nat) : Nat :=
  (symbols.map fun s => s.term size (f s.name)).sum

def Field.Covers (s : Field) (p : Nat) : Prop := s.low ≤ p ∧ p ≤ s.high

instance (s : Field) (p : Nat) : Decidable (s.Covers p) := inferInstanceAs (Decidable (_ ∧ _))

section Image

variable {size p v : Nat} {s t : Field} {symbols : List Field} {f g : Text → Nat}

theorem lowHigh (s : Field) : s.low ≤ s.high := by
  unfold Field.low Field.high
  omega

theorem encodedLt (small : v < 2 ^ s.width) : s.encoded v < 2 ^ s.width := by
  unfold Field.encoded
  split
  · exact mirrorLt
  · exact small

theorem termBit (inside : s.high < size) (small : v < 2 ^ s.width) (below : p < size) :
    (s.term size v).testBit (size - 1 - p) = (decide (s.Covers p) && (s.encoded v).testBit (s.high - p)) := by
  have order := lowHigh s
  rw [Field.term, Nat.testBit_shiftLeft]
  by_cases high : p ≤ s.high
  · have shift : size - 1 - p - (size - 1 - s.high) = s.high - p := by omega
    rw [decide_eq_true (by omega), Bool.true_and, shift]
    by_cases low : s.low ≤ p
    · rw [decide_eq_true (show s.Covers p from ⟨low, high⟩), Bool.true_and]
    · have beyond : s.width ≤ s.high - p := by
        unfold Field.width
        omega
      rw [decide_eq_false (fun covers => low covers.1), Bool.false_and]
      exact Nat.testBit_lt_two_pow ((encodedLt small).trans_le (Nat.pow_le_pow_right (by decide) beyond))
  · rw [decide_eq_false (by omega), decide_eq_false (fun covers => high covers.2), Bool.false_and,
      Bool.false_and]

theorem coversOnce (disjoint : s.high < t.low ∨ t.high < s.low) (covers : s.Covers p) : ¬ t.Covers p := by
  rintro ⟨low, high⟩
  have first := covers.1
  have last := covers.2
  omega

theorem sameName (table : Table size symbols) (first : s ∈ symbols) (second : t ∈ symbols)
    (name : s.name = t.name) : s = t := by
  have symm : Std.Symm fun s t : Field => s.name ≠ t.name := ⟨fun _ _ => Ne.symm⟩
  by_contra ne
  exact table.distinct.forall first second ne name

theorem sameField (table : Table size symbols) (first : s ∈ symbols) (second : t ∈ symbols)
    (covers : s.Covers p) (also : t.Covers p) : s = t := by
  have symm : Std.Symm fun s t : Field => s.high < t.low ∨ t.high < s.low := ⟨fun _ _ => Or.symm⟩
  by_contra ne
  exact coversOnce (table.disjoint.forall first second ne) covers also

theorem termHigh (inside : s.high < size) (small : v < 2 ^ s.width) {i : Nat} (beyond : size ≤ i) :
    (s.term size v).testBit i = false := by
  have order := lowHigh s
  have far : s.width ≤ i - (size - 1 - s.high) := by
    unfold Field.width
    omega
  rw [Field.term, Nat.testBit_shiftLeft,
    Nat.testBit_lt_two_pow ((encodedLt small).trans_le (Nat.pow_le_pow_right (by decide) far)), Bool.and_false]

theorem imageBit (table : Table size symbols) (small : ∀ s ∈ symbols, f s.name < 2 ^ s.width)
    (below : p < size) : (image size symbols f).testBit (size - 1 - p) =
      symbols.any fun s => decide (s.Covers p) && (s.encoded (f s.name)).testBit (s.high - p) := by
  have apart : (symbols.map fun s => s.term size (f s.name)).Pairwise
      fun a b => ∀ i, a.testBit i = true → b.testBit i = false := by
    rw [List.pairwise_map]
    refine table.disjoint.imp_of_mem fun {s t} first second disjoint i set => ?_
    have small_ := small s first
    have inside := table.inside s first
    rcases Nat.lt_or_ge i size with low | high
    · have position : i = size - 1 - (size - 1 - i) := by omega
      rw [position, termBit inside small_ (by omega), Bool.and_eq_true, decide_eq_true_eq] at set
      rw [position, termBit (table.inside t second) (small t second) (by omega),
        decide_eq_false (coversOnce disjoint set.1), Bool.false_and]
    · rw [termHigh inside small_ high] at set
      cases set
  rw [image, sumApart apart, List.any_map, ← Bool.coe_iff_coe]
  simp only [List.any_eq_true, Function.comp_apply]
  refine exists_congr fun s => and_congr_right fun mem => ?_
  rw [termBit (table.inside s mem) (small s mem) below]

theorem imageCovered (table : Table size symbols) (small : ∀ s ∈ symbols, f s.name < 2 ^ s.width)
    (mem : s ∈ symbols) (covers : s.Covers p) :
    (image size symbols f).testBit (size - 1 - p) = (s.encoded (f s.name)).testBit (s.high - p) := by
  have below : p < size := Nat.lt_of_le_of_lt covers.2 (table.inside s mem)
  rw [imageBit table small below, ← Bool.coe_iff_coe]
  simp only [List.any_eq_true, Bool.and_eq_true, decide_eq_true_eq]
  constructor
  · rintro ⟨t, other, covered, set⟩
    rwa [sameField table mem other covers covered]
  · exact fun set => ⟨s, mem, covers, set⟩

theorem imageOutside (table : Table size symbols) (small : ∀ s ∈ symbols, f s.name < 2 ^ s.width)
    (below : p < size) (outside : ∀ s ∈ symbols, ¬ s.Covers p) :
    (image size symbols f).testBit (size - 1 - p) = false := by
  rw [imageBit table small below, List.any_eq_false]
  intro s mem
  rw [decide_eq_false (outside s mem), Bool.false_and]
  exact Bool.false_ne_true

theorem encodedZero (s : Field) : s.encoded 0 = 0 := by
  unfold Field.encoded
  split
  · apply Nat.eq_of_testBit_eq
    intro i
    rw [testMirror, Nat.zero_testBit, Nat.zero_testBit, Bool.and_false]
  · rfl

theorem termZero (size : Nat) (s : Field) : s.term size 0 = 0 := by
  rw [Field.term, encodedZero, Nat.zero_shiftLeft]

theorem imageCongr (same : ∀ s ∈ symbols, f s.name = g s.name) : image size symbols f = image size symbols g := by
  unfold image
  congr 1
  apply List.map_congr_left
  intro s mem
  rw [same s mem]

theorem imageAssign (distinct : symbols.Pairwise fun s t => s.name ≠ t.name) (mem : s ∈ symbols)
    (zero : f s.name = 0) :
    image size symbols (Function.update f s.name v) = s.term size v + image size symbols f := by
  obtain ⟨pre, post, rfl⟩ := List.append_of_mem mem
  rw [List.pairwise_append, List.pairwise_cons] at distinct
  obtain ⟨_, ⟨after, _⟩, before⟩ := distinct
  have front : image size pre (Function.update f s.name v) = image size pre f :=
    imageCongr fun t member => Function.update_of_ne (before t member s List.mem_cons_self) _ _
  have back : image size post (Function.update f s.name v) = image size post f :=
    imageCongr fun t member => Function.update_of_ne (after t member).symm _ _
  simp only [image, List.map_append, List.map_cons, List.sum_append, List.sum_cons, Function.update_self,
    zero, termZero] at front back ⊢
  omega

end Image

section Encoder

variable {size : Nat} {symbols : List Field} {assignments : List (Text × Nat)}

theorem valueMissing {n : Text} (missing : n ∉ assignments.map Prod.fst) : valueOf assignments n = 0 := by
  induction assignments with
  | nil => rfl
  | cons a rest ih =>
    rw [List.map_cons, List.mem_cons, not_or] at missing
    rw [valueOf, if_neg (fun eq => missing.1 eq.symm), ih missing.2]

theorem valueSmall (table : Table size symbols) (values : Values symbols assignments) :
    ∀ s ∈ symbols, valueOf assignments s.name < 2 ^ s.width := by
  intro s mem
  have fits := values.fits
  clear values
  induction assignments with
  | nil => exact Nat.two_pow_pos _
  | cons a rest ih =>
    unfold valueOf
    split
    · rename_i same
      obtain ⟨t, member, name, small⟩ := fits a List.mem_cons_self
      exact sameName table member mem (name.trans same) ▸ small
    · exact ih (fun a mem => fits a (List.mem_cons_of_mem _ mem))

theorem findField (table : Table size symbols) {s : Field} (mem : s ∈ symbols) :
    symbols.find? (fun t => t.name = s.name) = some s := by
  obtain ⟨t, found⟩ : ∃ t, symbols.find? (fun t => t.name = s.name) = some t := by
    rw [← Option.isSome_iff_exists, List.find?_isSome]
    exact ⟨s, mem, by simp⟩
  have name : t.name = s.name := by simpa using List.find?_some found
  rw [found, sameName table (List.mem_of_find?_eq_some found) mem name]

theorem accumulateImage (table : Table size symbols) (values : Values symbols assignments)
    (bits : Nat) (printed : List String) : accumulate size symbols (bits, printed) assignments =
      some (bits + image size symbols (valueOf assignments), printed) := by
  obtain ⟨distinct, fits⟩ := values
  induction assignments generalizing bits with
  | nil =>
    have zero : image size symbols (valueOf []) = 0 := by
      simp [image, valueOf, termZero]
    rw [zero]
    rfl
  | cons a rest ih =>
    obtain ⟨s, mem, name, small⟩ := fits a List.mem_cons_self
    obtain ⟨n, v⟩ := a
    subst name
    rw [List.map_cons, List.nodup_cons] at distinct
    have update : valueOf ((s.name, v) :: rest) = Function.update (valueOf rest) s.name v := by
      funext m
      rw [valueOf, Function.update_apply]
      exact if_congr eq_comm rfl rfl
    unfold accumulate
    rw [findField table mem]
    simp only [if_neg (Nat.not_le.mpr small), if_neg (Nat.not_le.mpr (table.inside s mem))]
    rw [ih _ distinct.2 (fun a member => fits a (List.mem_cons_of_mem _ member)), update,
      imageAssign table.distinct mem (valueMissing distinct.1), ← Nat.add_assoc]
    rfl

theorem withLengthValues (v : Vars) (values : Values symbols assignments) :
    Values symbols (v.withLength false symbols assignments []) ∧
      ∀ n, valueOf (v.withLength false symbols assignments []) n = valueOf assignments n := by
  unfold Vars.withLength
  split
  · rename_i added
    obtain ⟨known, missing, _⟩ := added
    have fresh : pbiLength ∉ assignments.map Prod.fst := by
      intro mem
      apply missing
      obtain ⟨a, member, name⟩ := List.mem_map.mp mem
      exact List.any_eq_true.mpr ⟨a, member, by simpa using name⟩
    refine ⟨⟨?_, ?_⟩, ?_⟩
    · rw [List.map_append, List.map_singleton]
      exact List.Nodup.append values.distinct (List.nodup_singleton _) (List.disjoint_singleton.mpr fresh)
    · intro a mem
      rcases List.mem_append.mp mem with mem | mem
      · exact values.fits a mem
      · rw [List.mem_singleton.mp mem]
        obtain ⟨s, member, name⟩ := List.any_eq_true.mp known
        exact ⟨s, member, by simpa using name, Nat.two_pow_pos _⟩
    · intro n
      clear missing fresh values known
      induction assignments with
      | nil =>
        show (if pbiLength = n then 0 else 0) = 0
        exact ite_self 0
      | cons a rest ih =>
        show (if a.1 = n then a.2 else valueOf (rest ++ _) n) = if a.1 = n then a.2 else valueOf rest n
        rw [ih]
  · exact ⟨values, fun _ => rfl⟩

end Encoder

def listing (f : Text → Nat) (symbols : List Field) : List Text :=
  (symbols.filter fun s => f s.name ≠ 0).map fun s => fieldLine s.name s.width (f s.name)

section Decoder

variable {size bits v : Nat} {s : Field} {symbols rest : List Field} {f : Text → Nat}

def Field.raw (s : Field) (bits : Nat) : Nat := (bits >>> s.low) &&& (2 ^ s.width - 1)

theorem rawBit (s : Field) (bits k : Nat) :
    (s.raw bits).testBit k = (decide (k < s.width) && bits.testBit (s.low + k)) := by
  rw [Field.raw, Nat.testBit_and, Nat.testBit_shiftRight, Nat.testBit_two_pow_sub_one, Bool.and_comm]

theorem coversOffset (s : Field) {k : Nat} (inside : k < s.width) : s.Covers (s.low + k) := by
  have order := lowHigh s
  unfold Field.width at inside
  exact ⟨by omega, by omega⟩

theorem rawEncoded (reads : ∀ p, s.Covers p → bits.testBit p = (s.encoded v).testBit (s.high - p)) :
    s.raw bits = mirror s.width (s.encoded v) := by
  apply Nat.eq_of_testBit_eq
  intro k
  rw [rawBit, testMirror]
  by_cases inside : k < s.width
  · have order := lowHigh s
    have turned : s.high - (s.low + k) = s.width - 1 - k := by
      unfold Field.width
      omega
    rw [reads _ (coversOffset s inside), turned]
  · rw [decide_eq_false inside, Bool.false_and, Bool.false_and]

theorem decodedValue (small : v < 2 ^ s.width)
    (reads : ∀ p, s.Covers p → bits.testBit p = (s.encoded v).testBit (s.high - p)) :
    (if s.low = s.first then mirror s.width (s.raw bits) else s.raw bits) = v := by
  rw [rawEncoded reads]
  unfold Field.encoded
  by_cases ascending : s.low = s.first
  · rw [if_pos ascending, if_neg (not_not.mpr ascending), mirrorMirror small]
  · rw [if_neg ascending, if_pos ascending, mirrorMirror small]

theorem maskBit (s : Field) (p : Nat) :
    ((2 ^ s.width - 1) <<< s.low).testBit p = decide (s.Covers p) := by
  have order := lowHigh s
  rw [Nat.testBit_shiftLeft, Nat.testBit_two_pow_sub_one, ← Bool.decide_and]
  apply decide_eq_decide.mpr
  unfold Field.Covers Field.width
  omega

theorem clearedBit (s : Field) (bits p : Nat) :
    (Nat.ldiff bits ((2 ^ s.width - 1) <<< s.low)).testBit p = (bits.testBit p && !decide (s.Covers p)) := by
  rw [Nat.testBit_ldiff, maskBit]

theorem zeroBits (zero : (if s.low = s.first then mirror s.width (s.raw bits) else s.raw bits) = 0) (p : Nat) :
    bits.testBit p = (bits.testBit p && !decide (s.Covers p)) := by
  by_cases covers : s.Covers p
  · have raw : s.raw bits = 0 := by
      have small : s.raw bits < 2 ^ s.width := by
        unfold Field.raw
        exact Nat.and_lt_two_pow _ (by have := Nat.two_pow_pos s.width; omega)
      split at zero
      · rw [← mirrorMirror small, zero]
        exact Nat.eq_of_testBit_eq fun i => by rw [testMirror, Nat.zero_testBit, Nat.zero_testBit, Bool.and_false]
      · exact zero
    have bit := rawBit s bits (p - s.low)
    have order := lowHigh s
    obtain ⟨low, high⟩ := covers
    have inside : p - s.low < s.width := by
      unfold Field.width
      omega
    rw [raw, Nat.zero_testBit, decide_eq_true inside, Bool.true_and, Nat.add_sub_cancel' low] at bit
    rw [← bit]
    rfl
  · rw [decide_eq_false covers, Bool.not_false, Bool.and_true]

theorem decodeListing (disjoint : symbols.Pairwise fun s t => s.high < t.low ∨ t.high < s.low)
    (small : ∀ s ∈ symbols, f s.name < 2 ^ s.width)
    (reads : ∀ s ∈ symbols, ∀ p, s.Covers p → bits.testBit p = (s.encoded (f s.name)).testBit (s.high - p)) :
    (decodeFields symbols bits).1 = listing f symbols ∧
      ∀ p, (decodeFields symbols bits).2.testBit p =
        (bits.testBit p && !symbols.any fun s => decide (s.Covers p)) := by
  induction symbols generalizing bits with
  | nil => exact ⟨rfl, fun p => by simp [decodeFields]⟩
  | cons s rest ih =>
    rw [List.pairwise_cons] at disjoint
    have value := decodedValue (small s List.mem_cons_self) (reads s List.mem_cons_self)
    have fields : ∀ t ∈ rest, f t.name < 2 ^ t.width := fun t mem => small t (List.mem_cons_of_mem _ mem)
    unfold decodeFields
    by_cases zero : f s.name = 0
    · rw [zero] at value
      obtain ⟨lines, left⟩ := ih disjoint.2 fields (fun t mem => reads t (List.mem_cons_of_mem _ mem))
      have cleared := zeroBits value
      unfold Field.raw at value
      simp only [value, ne_eq, not_true_eq_false, if_false]
      refine ⟨?_, fun p => ?_⟩
      · rw [lines, listing, listing, List.filter_cons_of_neg (by simpa using zero)]
      · rw [left, List.any_cons, Bool.not_or, ← Bool.and_assoc, ← cleared]
    · have kept : ∀ t ∈ rest, ∀ p, t.Covers p →
          (Nat.ldiff bits ((2 ^ s.width - 1) <<< s.low)).testBit p =
            (t.encoded (f t.name)).testBit (t.high - p) := by
        intro t mem p covers
        have apart : ¬ s.Covers p := coversOnce (disjoint.1 t mem).symm covers
        rw [clearedBit, decide_eq_false apart, Bool.not_false, Bool.and_true]
        exact reads t (List.mem_cons_of_mem _ mem) p covers
      obtain ⟨lines, left⟩ := ih disjoint.2 fields kept
      unfold Field.raw at value
      simp only [value, ne_eq, zero, not_false_eq_true, if_true]
      refine ⟨?_, fun p => ?_⟩
      · rw [lines, listing, listing, List.filter_cons_of_pos (by simpa using zero), List.map_cons]
      · rw [left, clearedBit, List.any_cons, Bool.not_or, Bool.and_assoc]

theorem decodeImage (table : Table size symbols) (small : ∀ s ∈ symbols, f s.name < 2 ^ s.width) :
    decodeFields symbols (mirror size (image size symbols f)) = (listing f symbols, 0) := by
  have turned : ∀ p, p < size →
      (mirror size (image size symbols f)).testBit p = (image size symbols f).testBit (size - 1 - p) := by
    intro p below
    rw [testMirror, decide_eq_true below, Bool.true_and]
  have reads : ∀ s ∈ symbols, ∀ p, s.Covers p → (mirror size (image size symbols f)).testBit p =
      (s.encoded (f s.name)).testBit (s.high - p) := by
    intro s mem p covers
    rw [turned p (Nat.lt_of_le_of_lt covers.2 (table.inside s mem)), imageCovered table small mem covers]
  obtain ⟨lines, left⟩ := decodeListing table.disjoint small reads
  refine Prod.ext lines (Nat.eq_of_testBit_eq fun p => ?_)
  rw [left, Nat.zero_testBit]
  rcases Nat.lt_or_ge p size with below | beyond
  · by_cases covered : ∃ s ∈ symbols, s.Covers p
    · obtain ⟨s, mem, covers⟩ := covered
      have some_ : (symbols.any fun s => decide (s.Covers p)) = true :=
        List.any_eq_true.mpr ⟨s, mem, decide_eq_true covers⟩
      rw [some_, Bool.not_true, Bool.and_false]
    · rw [turned p below, imageOutside table small below (fun s mem covers => covered ⟨s, mem, covers⟩),
        Bool.false_and]
  · rw [Nat.testBit_lt_two_pow (mirrorLt.trans_le (Nat.pow_le_pow_right (by decide) beyond)), Bool.false_and]

end Decoder

section Bytes

variable {v : Vars} {bits : Nat} {binary : List Nat}

def Vars.plainBytes (v : Vars) (bits : Nat) : List Nat :=
  (List.range (v.size / 8)).map fun i => (bits >>> (8 * (v.size / 8) - 8 * (i + 1))) &&& 0xff

theorem byteLt (x : Nat) : x &&& 0xff < 256 := Nat.and_lt_two_pow x (show 0xff < 2 ^ 8 by decide)

theorem plainLt : ∀ b ∈ v.plainBytes bits, b < 256 := by
  intro b mem
  obtain ⟨i, _, rfl⟩ := List.mem_map.mp mem
  exact byteLt _

theorem rcwBytesEq (whole : v.size % 8 = 0) : v.rcwBytes bits =
    if v.classicbitnumbers then (v.plainBytes bits).map (mirror 8) else v.plainBytes bits := by
  have size : 8 * (v.size / 8) = v.size := by omega
  unfold Vars.rcwBytes Vars.plainBytes
  rw [size]
  cases v.classicbitnumbers
  · rfl
  · rw [if_pos rfl, List.map_map]
    rfl

theorem rcwBytesLength (v : Vars) (bits : Nat) : (v.rcwBytes bits).length = v.size / 8 := by
  simp [Vars.rcwBytes]

theorem rcwBytesLt : ∀ b ∈ v.rcwBytes bits, b < 256 := by
  intro b mem
  obtain ⟨i, _, rfl⟩ := List.mem_map.mp mem
  simp only
  split
  · exact mirrorLt
  · exact byteLt _

theorem rcwBytesBack (whole : v.size % 8 = 0) :
    (if v.classicbitnumbers then (v.rcwBytes bits).map (mirror 8) else v.rcwBytes bits) = v.plainBytes bits := by
  rw [rcwBytesEq whole]
  cases v.classicbitnumbers
  · rfl
  · simp only [if_true, List.map_map]
    conv_rhs => rw [← List.map_id (v.plainBytes bits)]
    exact List.map_congr_left fun b mem => mirrorMirror (plainLt b mem)

theorem plainNumber (whole : v.size % 8 = 0) (positive : 0 < v.size) :
    bitNumber (v.plainBytes bits) = some (mirror v.size bits) := by
  have size : 8 * (v.size / 8) = v.size := by omega
  have some_ : v.plainBytes bits ≠ [] := by
    intro none_
    have length := congrArg List.length none_
    simp [Vars.plainBytes] at length
    omega
  have spelled := binaryBytes (v.size / 8) bits
  rw [bitNumber, if_neg some_, mirror, Vars.plainBytes, spelled, size]

theorem swapOne {bytes rest : List Nat} (eight : bytes.length = 8) (small : ∀ b ∈ bytes, b < 256) :
    swap64 (bytes ++ rest) = (swap64 rest).map (bytes.reverse ++ ·) := by
  have turned := packUnpack small
  rw [eight] at turned
  match bytes, eight, turned with
  | [a, b, c, d, e, f, g, h], _, turned =>
    rw [← turned]
    rfl

theorem swapTurns (n : Nat) (length : binary.length = 8 * n) (small : ∀ b ∈ binary, b < 256) :
    ∃ turned, swap64 binary = some turned ∧ turned.length = 8 * n ∧ swap64 turned = some binary := by
  induction n generalizing binary with
  | zero =>
    rw [List.length_eq_zero_iff.mp length]
    exact ⟨[], rfl, rfl, rfl⟩
  | succ n ih =>
    have split := List.take_append_drop 8 binary
    have eight : (binary.take 8).length = 8 := by
      rw [List.length_take]
      omega
    have left : (binary.drop 8).length = 8 * n := by
      rw [List.length_drop]
      omega
    have first : ∀ b ∈ binary.take 8, b < 256 := fun b mem => small b (List.mem_of_mem_take mem)
    obtain ⟨turned, swapped, total, back⟩ := ih left (fun b mem => small b (List.mem_of_mem_drop mem))
    refine ⟨(binary.take 8).reverse ++ turned, ?_, ?_, ?_⟩
    · rw [← split, swapOne eight first, swapped]
      simp
    · rw [List.length_append, List.length_reverse, eight, total]
      omega
    · rw [swapOne (by simpa using eight) (fun b mem => first b (List.mem_reverse.mp mem)), back,
        List.reverse_reverse, Option.map_some, split]

theorem swapAll (n : Nat) (length : binary.length = 8 * n) : swapQuads binary binary.length = swap64 binary := by
  have quads : (binary.length + 7) / 8 * 8 = binary.length := by omega
  unfold swapQuads
  simp only [quads, List.take_length, Nat.lt_irrefl, if_false, Option.map_id']

end Bytes

section Compiling

variable {v : Vars} {symbols : List Field} {assignments : List (Text × Nat)}

def Vars.compiled (v : Vars) (symbols : List Field) (f : Text → Nat) : Option (List Nat) :=
  let binary := v.rcwBytes (image v.size symbols f)
  if v.littleendian64b then swap64 binary else some binary

theorem createCompiled (swappable : v.littleendian64b = true → v.size % 64 = 0)
    (table : Table v.size symbols) (values : Values symbols assignments) :
    v.createBinary false symbols assignments [] =
      (v.compiled symbols (valueOf assignments)).map fun binary => (binary, []) := by
  obtain ⟨with_, same⟩ := withLengthValues v values
  have bits := accumulateImage table with_ 0 []
  rw [imageCongr (fun s _ => same s.name), Nat.zero_add] at bits
  have plain : ¬ (v.dont64bswapcrc ∧ false = true) := fun both => by cases both.2
  unfold Vars.createBinary Vars.compiled
  rw [bits]
  simp only [List.append_nil, Bool.false_eq_true, and_false, if_false]
  cases quad : v.littleendian64b with
  | false => rfl
  | true =>
    have multiple := swappable quad
    have length : (v.rcwBytes (image v.size symbols (valueOf assignments))).length = 8 * (v.size / 64) := by
      rw [rcwBytesLength]
      omega
    have swapped := swapAll (v.size / 64) length
    simp only [Option.bind_eq_bind, Option.bind_some, if_true]
    rw [swapped]
    cases swap64 (v.rcwBytes (image v.size symbols (valueOf assignments))) <;> rfl

theorem sourceListing (f : Text → Nat) (rcwi : Text) (whole : v.size % 8 = 0) (positive : 0 < v.size)
    (swappable : v.littleendian64b = true → v.size % 64 = 0) (table : Table v.size symbols)
    (small : ∀ s ∈ symbols, f s.name < 2 ^ s.width) :
    ∃ binary, v.compiled symbols f = some binary ∧ v.createSource rcwi symbols binary =
      some ⟨["#include <".toList ++ rcwi ++ ['>'], []] ++ listing f symbols, []⟩ := by
  generalize bits : image v.size symbols f = n
  have length := rcwBytesLength v n
  obtain ⟨binary, compiled, back⟩ : ∃ binary, v.compiled symbols f = some binary ∧
      v.unswapped binary = some (v.rcwBytes n) := by
    unfold Vars.compiled Vars.unswapped
    rw [bits]
    cases quad : v.littleendian64b with
    | false => exact ⟨_, rfl, rfl⟩
    | true =>
      have multiple := swappable quad
      obtain ⟨turned, swapped, total, again⟩ := swapTurns (v.size / 64) (by rw [length]; omega) rcwBytesLt
      have complete : turned.take (turned.length / 8 * 8) = turned := by
        have size : turned.length / 8 * 8 = turned.length := by omega
        rw [size, List.take_length]
      have exact_ : ¬ (v.dont64bswapcrc ∧ v.size / 8 < turned.length) := fun both => by omega
      refine ⟨turned, swapped, ?_⟩
      simp only [if_true, complete, if_neg exact_, Nat.lt_irrefl, false_and, if_false]
      rw [swapAll (v.size / 64) total, again]
  have short : ¬ v.size / 8 < (v.rcwBytes n).length := by rw [length]; exact Nat.lt_irrefl _
  have decoded := decodeImage table small
  refine ⟨binary, compiled, ?_⟩
  rw [bits] at decoded
  simp only [Vars.createSource, back, Vars.split, if_neg short, Option.bind_eq_bind, Option.bind_some,
    rcwBytesBack whole, plainNumber whole positive, decoded, Vars.pbiSource, if_true]
  rw [List.append_nil]
  rfl

end Compiling

section Listed

variable {size : Nat} {symbols : List Field} {f : Text → Nat} {name digits : Text}

theorem nameClean {c : Char} (valid : isName c = true) : isSpace c = false ∧ c ≠ '.' ∧ c ≠ '%' := by
  refine ⟨?_, ?_, ?_⟩
  · simp only [isName, Bool.or_eq_true, beq_iff_eq] at valid
    rcases valid with (upper | digit) | rfl
    · exact (alphanumPlain (by simp [Char.isAlphanum, Char.isAlpha, upper])).2
    · exact (alphanumPlain (by simp [Char.isAlphanum, digit])).2
    · decide
  · rintro rfl
    revert valid
    decide
  · rintro rfl
    revert valid
    decide

theorem fieldDigits {width value : Nat} (positive : 0 < value) :
    ∃ digits, fieldLine name width value = name ++ '=' :: digits ∧ digits ≠ [] ∧
      (∀ c ∈ digits, c.isAlphanum = true) ∧ intLiteral digits = some value := by
  unfold fieldLine
  split
  · refine ⟨_, rfl, List.cons_ne_nil _ _, fun c mem => ?_, ?_⟩
    · rcases List.mem_cons.mp mem with rfl | mem
      · decide
      · rcases List.mem_cons.mp mem with rfl | mem
        · decide
        · exact digitsAlphanum (by decide) (by decide) mem
    · have written := intLiteralHex (n := value) 0
      rwa [padded, Nat.zero_sub, List.replicate_zero, List.nil_append] at written
  · refine ⟨_, rfl, Nat.toDigits_ne_nil, fun c mem => digitsAlphanum (by decide) (by decide) mem, ?_⟩
    exact intLiteralDecimal positive

theorem namedValue (mark : Char) (valid : ∀ c ∈ name, isName c = true) (some_ : name ≠ [])
    (nonempty : digits ≠ []) (alphanum : ∀ c ∈ digits, c.isAlphanum = true) :
    named mark (name ++ '=' :: digits) = if '=' = mark then some (name, digits, []) else none := by
  have taken : (name ++ '=' :: digits).takeWhile isName = name := by
    rw [List.takeWhile_append_of_pos valid]
    simp [isName]
  have left : (name ++ '=' :: digits).dropWhile isName = '=' :: digits := by
    rw [List.dropWhile_append_of_pos valid]
    simp [isName]
  have all : digits.takeWhile Char.isAlphanum = digits := List.takeWhile_eq_self_iff.mpr alphanum
  have none_ : digits.dropWhile Char.isAlphanum = [] := List.dropWhile_eq_nil_iff.mpr alphanum
  simp only [named, taken, left, all, none_, ne_eq, some_, nonempty, not_false_eq_true, and_true]

theorem parseField (parseSubsection : Text → List Text → Option (List Nat)) (warnings : Bool) {p : Parser}
    (outside : p.subsection = none) {width value : Nat} (positive : 0 < value)
    (valid : ∀ c ∈ name, isName c = true) (some_ : name ≠ []) :
    p.parseSourceLine parseSubsection warnings (fieldLine name width value) =
      some (p.assign warnings name value) := by
  obtain ⟨digits, shape, nonempty, alphanum, literal⟩ : ∃ digits,
      fieldLine name width value = name ++ '=' :: digits ∧ digits ≠ [] ∧
        (∀ c ∈ digits, c.isAlphanum = true) ∧ intLiteral digits = some value := fieldDigits positive
  have clean : (name ++ '=' :: digits).filter (fun c => !isSpace c) = name ++ '=' :: digits := by
    rw [List.filter_eq_self]
    intro c mem
    rcases List.mem_append.mp mem with mem | mem
    · simp [(nameClean (valid c mem)).1]
    · rcases List.mem_cons.mp mem with rfl | mem
      · decide
      · simp [(alphanumPlain (alphanum c mem)).2]
  have line := fun mark => namedValue mark valid some_ nonempty alphanum
  have definition : named '[' (name ++ '=' :: digits) = none := (line '[').trans (if_neg (by decide))
  have assignment : named '=' (name ++ '=' :: digits) = some (name, digits, []) :=
    (line '=').trans (if_pos rfl)
  have header : headerLine (name ++ '=' :: digits) = none ∧ variableLine (name ++ '=' :: digits) = none := by
    cases name with
    | nil => exact absurd rfl some_
    | cons c cs =>
      obtain ⟨_, dot, percent⟩ := nameClean (valid c List.mem_cons_self)
      constructor
      · unfold headerLine
        split
        · rename_i eq
          exact absurd (List.cons.inj eq).1 dot
        · rfl
      · unfold variableLine
        split
        · rename_i eq
          exact absurd (List.cons.inj eq).1 percent
        · rfl
  have filled : name ++ '=' :: digits ≠ [] := by simp
  rw [shape]
  simp only [Parser.parseSourceLine, clean, if_neg filled, header.1, header.2, outside, singleLine,
    rangedLine, assignmentLine, definition, assignment, Option.map_some, literal]

def listed (f : Text → Nat) (symbols : List Field) : List (Text × Nat) :=
  (symbols.filter fun s => f s.name ≠ 0).map fun s => (s.name, f s.name)

theorem listingCons (s : Field) (rest : List Field) : listing f (s :: rest) =
    if f s.name ≠ 0 then fieldLine s.name s.width (f s.name) :: listing f rest else listing f rest := by
  unfold listing
  by_cases zero : f s.name = 0
  · simp [zero]
  · simp [zero]

theorem listedCons (s : Field) (rest : List Field) : listed f (s :: rest) =
    if f s.name ≠ 0 then (s.name, f s.name) :: listed f rest else listed f rest := by
  unfold listed
  by_cases zero : f s.name = 0
  · simp [zero]
  · simp [zero]

theorem listedNames {n : Text} (mem : n ∈ (listed f symbols).map Prod.fst) : ∃ s ∈ symbols, s.name = n := by
  obtain ⟨a, member, rfl⟩ := List.mem_map.mp mem
  obtain ⟨s, kept, rfl⟩ := List.mem_map.mp member
  exact ⟨s, (List.mem_filter.mp kept).1, rfl⟩

theorem parseListing (parseSubsection : Text → List Text → Option (List Nat)) (warnings : Bool)
    {rest : List Field} {p : Parser} (outside : p.subsection = none)
    (known : ∀ s ∈ rest, p.symbols.any (·.name = s.name) = true)
    (valid : ∀ s ∈ rest, s.name ≠ [] ∧ ∀ c ∈ s.name, isName c = true)
    (distinct : rest.Pairwise fun s t => s.name ≠ t.name)
    (fresh : ∀ s ∈ rest, s.name ∉ p.assignments.map Prod.fst) :
    p.parseSource parseSubsection warnings (listing f rest) =
      some { p with assignments := p.assignments ++ listed f rest } := by
  induction rest generalizing p with
  | nil => simp [listing, listed, Parser.parseSource]
  | cons s rest ih =>
    rw [List.pairwise_cons] at distinct
    have known_ : ∀ t ∈ rest, p.symbols.any (·.name = t.name) = true :=
      fun t mem => known t (List.mem_cons_of_mem _ mem)
    have valid_ := fun t (mem : t ∈ rest) => valid t (List.mem_cons_of_mem _ mem)
    have fresh_ := fun t (mem : t ∈ rest) => fresh t (List.mem_cons_of_mem _ mem)
    rw [listingCons, listedCons]
    by_cases zero : f s.name = 0
    · rw [if_neg (not_not.mpr zero), if_neg (not_not.mpr zero)]
      exact ih outside known_ valid_ distinct.2 fresh_
    · rw [if_pos zero, if_pos zero]
      obtain ⟨some_, name⟩ := valid s List.mem_cons_self
      have new := fresh s List.mem_cons_self
      have assigned : p.assign warnings s.name (f s.name) =
          { p with assignments := p.assignments ++ [(s.name, f s.name)] } := by
        have absent : p.assignments.any (·.1 = s.name) = false := by
          rw [List.any_eq_false]
          intro a mem same
          exact new (List.mem_map.mpr ⟨a, mem, by simpa using same⟩)
        have kept : p.assignments.filter (·.1 ≠ s.name) = p.assignments := by
          rw [List.filter_eq_self]
          intro a mem
          simp only [ne_eq, decide_not, Bool.not_eq_true', decide_eq_false_iff_not]
          exact fun same => new (List.mem_map.mpr ⟨a, mem, same⟩)
        simp only [Parser.assign, known s List.mem_cons_self, if_true, absent, Bool.false_eq_true, and_false,
          if_false, store, kept, Parser.print, List.append_nil]
      rw [Parser.parseSource, parseField parseSubsection warnings outside (Nat.pos_of_ne_zero zero) name some_,
        Option.bind_some, assigned, ih]
      · simp
      · exact outside
      · exact known_
      · exact valid_
      · exact distinct.2
      · intro t mem
        rw [List.map_append, List.mem_append, not_or]
        refine ⟨fresh_ t mem, ?_⟩
        simpa using (distinct.1 t mem).symm

theorem listedValue (distinct : symbols.Pairwise fun s t => s.name ≠ t.name) :
    ∀ s ∈ symbols, valueOf (listed f symbols) s.name = f s.name := by
  induction symbols with
  | nil => exact fun s mem => by cases mem
  | cons s rest ih =>
    rw [List.pairwise_cons] at distinct
    intro t mem
    rw [listedCons]
    rcases List.mem_cons.mp mem with rfl | later
    · have missing : t.name ∉ (listed f rest).map Prod.fst := by
        intro name
        obtain ⟨s, member, same⟩ := listedNames name
        exact distinct.1 s member same.symm
      split
      · rw [valueOf, if_pos rfl]
      · rename_i zero
        rw [valueMissing missing, not_not.mp zero]
    · split
      · rw [valueOf, if_neg (distinct.1 t later), ih distinct.2 t later]
      · exact ih distinct.2 t later

theorem listedValues (table : Table size symbols) (small : ∀ s ∈ symbols, f s.name < 2 ^ s.width) :
    Values symbols (listed f symbols) where
  distinct := by
    rw [listed, List.map_map, List.Nodup, List.pairwise_map]
    exact (table.distinct.sublist List.filter_sublist).imp fun ne => ne
  fits := by
    intro a mem
    obtain ⟨s, kept, rfl⟩ := List.mem_map.mp mem
    have member := (List.mem_filter.mp kept).1
    exact ⟨s, member, rfl, small s member⟩

end Listed

theorem rcwRoundTrips {v : Vars} {symbols : List Field} {assignments : List (Text × Nat)} (rcwi : Text)
    (whole : v.size % 8 = 0) (positive : 0 < v.size)
    (swappable : v.littleendian64b = true → v.size % 64 = 0)
    (table : Table v.size symbols) (values : Values symbols assignments)
    (parseSubsection : Text → List Text → Option (List Nat)) (warnings : Bool) {p : Parser}
    (outside : p.subsection = none) (defined : p.symbols = symbols) (unassigned : p.assignments = []) :
    ∃ binary, v.createBinary false symbols assignments [] = some (binary, []) ∧
      v.createSource rcwi symbols binary =
        some ⟨["#include <".toList ++ rcwi ++ ['>'], []] ++ listing (valueOf assignments) symbols, []⟩ ∧
      p.parseSource parseSubsection warnings (listing (valueOf assignments) symbols) =
        some { p with assignments := listed (valueOf assignments) symbols } ∧
      v.createBinary false symbols (listed (valueOf assignments) symbols) [] = some (binary, []) := by
  have small := valueSmall table values
  obtain ⟨binary, compiled, source⟩ := sourceListing (valueOf assignments) rcwi whole positive swappable
    table small
  refine ⟨binary, ?_, source, ?_, ?_⟩
  · rw [createCompiled swappable table values, compiled]
    rfl
  · have parsed : p.parseSource parseSubsection warnings (listing (valueOf assignments) symbols) = _ :=
      parseListing parseSubsection warnings outside (by
        intro s mem
        rw [defined]
        exact List.any_eq_true.mpr ⟨s, mem, by simp⟩) table.named table.distinct (by simp [unassigned])
    rw [parsed, unassigned, List.nil_append]
  · have same : v.compiled symbols (valueOf (listed (valueOf assignments) symbols)) =
        v.compiled symbols (valueOf assignments) := by
      unfold Vars.compiled
      rw [imageCongr (listedValue table.distinct)]
    rw [createCompiled swappable table (listedValues table small), same, compiled]
    rfl

def rcw64 : Vars := ⟨64, 2, true, true, true, false, 0, 0, 0x138000⟩

def rcwFields : List Field := [⟨['A'], 0, 4⟩, ⟨['B', '_', '1'], 20, 9⟩, ⟨['C'], 63, 63⟩]

theorem rcwFieldsTable : Table 64 rcwFields where
  named := by simp [rcwFields, isName]
  inside := by decide
  distinct := by decide
  disjoint := by decide

theorem rcwRoundTripsThree :
    ∃ binary, rcw64.createBinary false rcwFields [(['B', '_', '1'], 0x3a5), (['A'], 3)] [] =
        some (binary, []) ∧
      rcw64.createSource ['x'] rcwFields binary = some ⟨["#include <".toList ++ ['x'] ++ ['>'], []] ++
        [['A', '=', '3'], ['B', '_', '1', '=', '0', 'x', '3', 'a', '5']], []⟩ := by
  have values : Values rcwFields [(['B', '_', '1'], 0x3a5), (['A'], 3)] := ⟨by decide, by decide⟩
  obtain ⟨binary, compiled, source, _⟩ := rcwRoundTrips (v := rcw64) (p := ⟨rcwFields, [], [], none, [], []⟩)
    ['x'] (by decide) (by decide) (by decide) rcwFieldsTable values (fun _ _ => none) false rfl rfl rfl
  exact ⟨binary, compiled, source⟩

theorem emptyRcwRefused :
    let v : Vars := ⟨0, 0, false, false, false, false, 0, 0, 0x138000⟩
    v.createBinary false [] [] [] = some ([], []) ∧ v.createSource ['x'] [] [] = none := by
  constructor <;> rfl

end Flexbuild.Rcw
