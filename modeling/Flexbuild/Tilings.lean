import Mathlib

/-! Ranges of positions given by an offset and a size. Ranges tile an interval when each begins
where the one before it ends. Ranges in order without overlap, whose sizes add up to the length
of an interval around them, tile it. -/
namespace Flexbuild.Tilings

structure Span where
  offset : Nat
  size : Nat
  deriving DecidableEq, Repr

def Span.stop (s : Span) : Nat := s.offset + s.size

def Before (a b : Span) : Prop := a.stop ≤ b.offset

instance : Trans Before Before Before where
  trans {a b c} first second := by
    simp only [Before, Span.stop] at *
    omega

def Apart (a b : Span) : Prop := Before a b ∨ Before b a

theorem apartComm {a b : Span} (apart : Apart a b) : Apart b a := apart.symm

def size (l : List Span) : Nat := (l.map Span.size).sum

@[simp] theorem sizeNil : size [] = 0 := rfl

@[simp] theorem sizeCons (a : Span) (l : List Span) : size (a :: l) = a.size + size l := rfl

@[simp] theorem sizeAppend (l r : List Span) : size (l ++ r) = size l + size r := by
  simp [size]

theorem sizePerm {l r : List Span} (same : l.Perm r) : size l = size r :=
  (same.map Span.size).sum_eq

def Tiles : Nat → List Span → Nat → Prop
  | start, [], stop => start = stop
  | start, a :: l, stop => a.offset = start ∧ Tiles a.stop l stop

variable {start stop : Nat}

theorem tilesAppend {l r : List Span} :
    Tiles start (l ++ r) stop ↔ ∃ middle, Tiles start l middle ∧ Tiles middle r stop := by
  induction l generalizing start with
  | nil => simp [Tiles]
  | cons a l ih => simp [Tiles, ih, and_assoc]

variable {l : List Span}

theorem tilesSize (tiles : Tiles start l stop) : start + size l = stop := by
  induction l generalizing start with
  | nil => exact tiles
  | cons a l ih =>
    have rest := ih tiles.2
    have begins := tiles.1
    simp only [sizeCons, Span.stop] at *
    omega

theorem tilesStep {a : Span} (tiles : Tiles start l stop)
    (next : a.offset = stop) : Tiles start (l ++ [a]) a.stop :=
  tilesAppend.mpr ⟨stop, tiles, next, rfl⟩

theorem tilesInside (tiles : Tiles start l stop) : ∀ a ∈ l, start ≤ a.offset ∧ a.stop ≤ stop := by
  induction l generalizing start with
  | nil => exact fun a inside => absurd inside List.not_mem_nil
  | cons b l ih =>
    have bound := tilesSize tiles.2
    have begins := tiles.1
    intro a inside
    rcases List.mem_cons.mp inside with rfl | inside
    · exact ⟨by omega, by omega⟩
    · have ⟨low, high⟩ := ih tiles.2 a inside
      exact ⟨by simp only [Span.stop] at low; omega, high⟩

theorem tilesSorted (tiles : Tiles start l stop) : l.IsChain Before := by
  induction l generalizing start with
  | nil => exact List.isChain_nil
  | cons a l ih =>
    refine List.isChain_cons.mpr ⟨fun b first => ?_, ih tiles.2⟩
    exact (tilesInside tiles.2 b (List.mem_of_mem_head? first)).1

theorem tilesCover (tiles : Tiles start l stop) (x : Nat) :
    (start ≤ x ∧ x < stop) ↔ ∃ a ∈ l, a.offset ≤ x ∧ x < a.stop := by
  induction l generalizing start with
  | nil =>
    have empty : start = stop := tiles
    simp only [List.not_mem_nil, false_and, exists_false, iff_false]
    omega
  | cons a l ih =>
    have begins := tiles.1
    have bound := tilesSize tiles.2
    simp only [List.exists_mem_cons_iff, ← ih tiles.2]
    simp only [Span.stop] at *
    omega

theorem sortedSize (sorted : l.IsChain Before)
    (low : ∀ a ∈ l.head?, start ≤ a.offset) (high : ∀ a ∈ l, a.stop ≤ stop)
    (interval : start ≤ stop) : start + size l ≤ stop := by
  induction l generalizing start with
  | nil => simpa using interval
  | cons a l ih =>
    obtain ⟨next, rest⟩ := List.isChain_cons.mp sorted
    have begins := low a rfl
    have ends := high a List.mem_cons_self
    have remaining := ih rest (fun b first => next b first)
      (fun b inside => high b (List.mem_cons_of_mem _ inside)) ends
    simp only [sizeCons, Span.stop] at *
    omega

theorem sortedTiles (sorted : l.IsChain Before)
    (low : ∀ a ∈ l.head?, start ≤ a.offset) (high : ∀ a ∈ l, a.stop ≤ stop)
    (full : start + size l = stop) : Tiles start l stop := by
  induction l generalizing start with
  | nil => simpa [Tiles] using full
  | cons a l ih =>
    obtain ⟨next, rest⟩ := List.isChain_cons.mp sorted
    have begins := low a rfl
    have ends := high a List.mem_cons_self
    have above : ∀ b ∈ l, b.stop ≤ stop := fun b inside => high b (List.mem_cons_of_mem _ inside)
    have remaining := sortedSize rest (fun b first => next b first) above ends
    have exactly : a.offset = start := by
      simp only [sizeCons, Span.stop] at *
      omega
    refine ⟨exactly, ih rest (fun b first => next b first) above ?_⟩
    simp only [sizeCons, Span.stop] at *
    omega

theorem sortedPairwise (sorted : l.IsChain Before) : l.Pairwise Apart :=
  (List.isChain_iff_pairwise.mp sorted).imp Or.inl

theorem sortedLast {b : Span} (sorted : l.IsChain Before) (last : b ∈ l.getLast?) : ∀ a ∈ l, a.stop ≤ b.stop := by
  obtain ⟨front, rfl⟩ := List.getLast?_eq_some_iff.mp last
  have before := (List.pairwise_append.mp (List.isChain_iff_pairwise.mp sorted)).2.2
  intro a inside
  rcases List.mem_append.mp inside with inside | inside
  · have first : Before a b := before a inside b (by simp)
    simp only [Before, Span.stop] at *
    omega
  · rw [List.mem_singleton.mp inside]

theorem tilesAssemble {β : Type*} (tiles : Tiles start l stop) (data : List β) :
    l.flatMap (fun a => (data.drop a.offset).take a.size) = (data.drop start).take (stop - start) := by
  induction l generalizing start with
  | nil =>
    have empty : start = stop := tiles
    simp [empty]
  | cons a l ih =>
    have begins := tiles.1
    have bound := tilesSize tiles.2
    have split : stop - start = a.size + (stop - a.stop) := by
      simp only [Span.stop] at *
      omega
    rw [List.flatMap_cons, ih tiles.2, split, List.take_add, List.drop_drop, begins, Span.stop,
      begins, Nat.add_comm start]

end Flexbuild.Tilings
