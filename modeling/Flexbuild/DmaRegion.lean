import Flexbuild.FirstFit

/-! The allocator of a DMA region. The last word of the region counts the buffers, and below it
an array of their extents grows downwards, in the order of the addresses; a buffer goes to the
first gap with room for it. Offsets are 32-bit words, sizes and distances 64-bit words. -/
namespace Flexbuild.Dma
open Words FirstFit

-- `info idx` is what stands where `get_bufinfo(map, idx)` points.
structure Region where
  sz : Nat
  numbufs : Nat
  info : Nat → Span

def Region.place (r : Region) (idx : Nat) : Nat := minus 64 r.sz (4 + 8 * (idx + 1))

def Region.entriesFrom (r : Region) (idx n : Nat) : List Span := (List.range' idx n).map r.info

def Region.entries (r : Region) : List Span := r.entriesFrom 0 r.numbufs

def roundEnd (lastend align : Nat) : Nat :=
  wrap 64 (lastend + align - 1) &&& (2 ^ 32 - 1 - wrap 32 (align - 1))

def memmove (info : Nat → Span) (dst src n : Nat) : Nat → Span := fun i =>
  if i ≤ dst ∧ dst < i + n then info (src - (dst - i)) else info i

def Region.allocatorInit (sz : Nat) (info : Nat → Span) : Region := ⟨sz, 0, info⟩

def Region.search (r : Region) (align size : Nat) : Nat → Nat → Nat → Nat × Nat
  | 0, idx, lastend => (idx, lastend)
  | left + 1, idx, lastend =>
      if wrap 64 (roundEnd lastend align + size) ≤ (r.info idx).offset then
        (idx, roundEnd lastend align)
      else r.search align size left (idx + 1) (wrap 32 (r.info idx).stop)

def Region.insert (r : Region) (idx lastend size : Nat) : Region :=
  let info := if idx < r.numbufs then memmove r.info r.numbufs (r.numbufs - 1) (r.numbufs - idx)
    else r.info
  { r with
    numbufs := wrap 32 (r.numbufs + 1)
    info := Function.update info idx ⟨lastend, wrap 32 size⟩ }

def Region.boundary (r : Region) : Nat :=
  if r.numbufs ≠ 0 then wrap 32 (r.info (r.numbufs - 1)).stop else 0

def Region.localMemalign (r : Region) (align size : Nat) : Option (Nat × Region) :=
  if r.place r.numbufs < r.boundary then none
  else
    let align := if align = 0 then 1 else align
    if align &&& (align - 1) ≠ 0 then none
    else
      let found := r.search align size r.numbufs 0 0
      if found.1 = r.numbufs then
        let lastend := roundEnd found.2 align
        if r.place r.numbufs < wrap 64 (lastend + size) then none
        else some (lastend, r.insert found.1 lastend size)
      else some (found.2, r.insert found.1 found.2 size)

def Region.remove (r : Region) (idx : Nat) : Region :=
  let numbufs := r.numbufs - 1
  { r with
    numbufs := numbufs
    info := if idx < numbufs then memmove r.info (numbufs - 1) numbufs (numbufs - idx) else r.info }

def Region.freeFrom (r : Region) (offset : Nat) : Nat → Nat → Region
  | 0, _ => r
  | left + 1, idx =>
      if (r.info idx).offset = offset then r.remove idx
      else if offset < (r.info idx).offset then r
      else r.freeFrom offset left (idx + 1)

def Region.localFree (r : Region) (addr ptr : Nat) : Region :=
  r.freeFrom (wrap 32 (minus 64 ptr addr)) r.numbufs 0

section Cells

variable {r : Region} {idx n i : Nat}

theorem entriesFromCons (r : Region) (idx n : Nat) :
    r.entriesFrom idx (n + 1) = r.info idx :: r.entriesFrom (idx + 1) n := rfl

theorem entriesLength (r : Region) : r.entries.length = r.numbufs := by
  simp [Region.entries, Region.entriesFrom]

theorem entriesGet (lt : i < r.numbufs) : r.entries[i]? = some (r.info i) := by
  simp [Region.entries, Region.entriesFrom, lt]

theorem insertEntries {lastend size : Nat} (le : idx ≤ r.numbufs) (few : r.numbufs + 1 < 2 ^ 32) :
    (r.insert idx lastend size).entries =
      r.entries.take idx ++ ⟨lastend, wrap 32 size⟩ :: r.entries.drop idx := by
  have count : (r.insert idx lastend size).numbufs = r.numbufs + 1 := wrapSmall few
  apply List.ext_getElem?
  intro i
  rcases Nat.lt_or_ge i (r.numbufs + 1) with lt | ge
  · rw [entriesGet (by rw [count]; exact lt)]
    simp only [Region.insert]
    rcases Nat.lt_trichotomy i idx with below | same | above
    · have kept : (if idx < r.numbufs then
          memmove r.info r.numbufs (r.numbufs - 1) (r.numbufs - idx) else r.info) i = r.info i := by
        split
        · exact if_neg (by omega)
        · rfl
      rw [Function.update_of_ne (by omega), kept, List.getElem?_append_left (by
        rw [List.length_take, entriesLength]; omega), List.getElem?_take_of_lt below,
        entriesGet (by omega)]
    · subst same
      have length : (r.entries.take i).length = i := by
        rw [List.length_take, entriesLength]
        omega
      rw [Function.update_self, List.getElem?_append_right (by omega), length, Nat.sub_self]
      rfl
    · have moved : (if idx < r.numbufs then
          memmove r.info r.numbufs (r.numbufs - 1) (r.numbufs - idx) else r.info) i =
            r.info (i - 1) := by
        rw [if_pos (by omega)]
        have inside : i ≤ r.numbufs ∧ r.numbufs < i + (r.numbufs - idx) := by omega
        simp only [memmove, if_pos inside]
        congr 1
        omega
      have length : (r.entries.take idx).length = idx := by
        rw [List.length_take, entriesLength]
        omega
      rw [Function.update_of_ne (by omega), moved, List.getElem?_append_right (by omega), length]
      have step : i - idx = (i - 1 - idx) + 1 := by omega
      rw [step, List.getElem?_cons_succ, List.getElem?_drop, Nat.add_sub_cancel' (by omega),
        entriesGet (by omega)]
  · rw [List.getElem?_eq_none (by rw [entriesLength, count]; exact ge), List.getElem?_eq_none]
    rw [List.length_append, List.length_cons, List.length_take, List.length_drop, entriesLength]
    omega

theorem removeEntries (lt : idx < r.numbufs) :
    (r.remove idx).entries = r.entries.take idx ++ r.entries.drop (idx + 1) := by
  have count : (r.remove idx).numbufs = r.numbufs - 1 := rfl
  apply List.ext_getElem?
  intro i
  have length : (r.entries.take idx).length = idx := by
    rw [List.length_take, entriesLength]
    omega
  rcases Nat.lt_or_ge i (r.numbufs - 1) with inside | ge
  · rw [entriesGet (by rw [count]; exact inside)]
    simp only [Region.remove]
    rcases Nat.lt_or_ge i idx with below | above
    · have kept : (if idx < r.numbufs - 1 then
          memmove r.info (r.numbufs - 1 - 1) (r.numbufs - 1) (r.numbufs - 1 - idx) else r.info) i =
            r.info i := by
        split
        · exact if_neg (by omega)
        · rfl
      rw [kept, List.getElem?_append_left (by omega), List.getElem?_take_of_lt below,
        entriesGet (by omega)]
    · have moved : (if idx < r.numbufs - 1 then
          memmove r.info (r.numbufs - 1 - 1) (r.numbufs - 1) (r.numbufs - 1 - idx) else r.info) i =
            r.info (i + 1) := by
        rw [if_pos (by omega)]
        have block : i ≤ r.numbufs - 1 - 1 ∧ r.numbufs - 1 - 1 < i + (r.numbufs - 1 - idx) := by omega
        simp only [memmove, if_pos block]
        congr 1
        omega
      rw [moved, List.getElem?_append_right (by omega), length, List.getElem?_drop]
      have step : idx + 1 + (i - idx) = i + 1 := by omega
      rw [step, entriesGet (by omega)]
  · rw [List.getElem?_eq_none (by rw [entriesLength, count]; exact ge), List.getElem?_eq_none]
    rw [List.length_append, List.length_take, List.length_drop, entriesLength]
    omega

end Cells

end Flexbuild.Dma
