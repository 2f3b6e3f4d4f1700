import Flexbuild.IprTable

/-! What holds of the table over any run of lookups and deletions. The entries are the keys that
are present, each once and in the line of its hash; the lines are live buffers with as many
references as entries. -/
namespace Flexbuild.Ipr
open Words Marks

def Tables.entry (s : Tables) (t : Bool) (h i : Nat) : SwTableEntry := s.keys (s.table t h) i

def Tables.Occupied (s : Tables) (t : Bool) (h i : Nat) : Prop :=
  s.table t h ≠ 0 ∧ i < fragsPerBin ∧ (s.entry t h i).virtAddr ≠ 0

def reachesRfdc (c : Config) (s : Tables) (fk : FragmentKey) (line : Option Nat) : Bool :=
  if s.table fk.isIpv4 (c.line fk) = 0 then line.isSome
  else
    match searchKey (s.keys (s.table fk.isIpv4 (c.line fk))) fk (List.range fragsPerBin) none with
    | .miss (some _) => true
    | _ => false

def Tables.allowed (c : Config) (s : Tables) : Call → Bool
  | .lookupOrInsert fk line rfdc _ => !reachesRfdc c s fk line || rfdc.isSome
  | _ => true

def Tables.allAllowed (c : Config) (s : Tables) : List Call → Bool
  | [] => true
  | a :: rest => s.allowed c a && (s.call c a).all (fun s => s.allAllowed c rest)

structure Tables.Right (c : Config) (s : Tables) : Prop where
  line : ∀ t h, s.table t h = 0 ∨ s.purpose (s.table t h) = some (.line t h) ∧
    0 < s.refCount (s.table t h) ∧
    s.refCount (s.table t h) = marks fragsPerBin (fun i => (s.entry t h i).virtAddr ≠ 0)
  unique : ∀ t h h' i j, s.Occupied t h i → s.Occupied t h' j →
    (s.entry t h i).fk = (s.entry t h' j).fk → h = h' ∧ i = j
  rfdc : ∀ t h i, s.Occupied t h i → ∃ a, c.memory.Holds a ∧
    (s.entry t h i).virtAddr = c.memory.physToVirt a ∧
    s.purpose a = some (.rfdc (s.entry t h i).fk) ∧ 0 < s.refCount a
  hit : ∀ fk line rfdc old answer s',
    swIprLookupOrInsert c s fk line rfdc old = some (answer, s') →
      (answer.status = .success ↔ s.present fk ≠ none) ∧
      (answer.status = .success → s.present fk = some answer.rfdcExtAddr)
  lookupRefused : ∀ fk line rfdc old answer s' e,
    swIprLookupOrInsert c s fk line rfdc old = some (answer, s') → answer.status = .error e → s' = s
  deleteRefused : ∀ t line pos e s', swTableKeyDelete s t line pos = some (e, s') → e ≠ 0 → s' = s

structure Lines (s : Tables) : Prop where
  line : ∀ t h, s.table t h ≠ 0 → s.purpose (s.table t h) = some (.line t h) ∧
    0 < s.refCount (s.table t h) ∧
    s.refCount (s.table t h) = marks fragsPerBin (fun i => (s.entry t h i).virtAddr ≠ 0)
  idle : ∀ a, s.refCount a = 0 → s.purpose a = none

structure Entries (c : Config) (s : Tables) : Prop where
  entry : ∀ t h i, s.Occupied t h i → (s.entry t h i).fk.isIpv4 = t ∧
    c.line (s.entry t h i).fk = h ∧ ∃ a, s.present (s.entry t h i).fk = some a ∧
      (s.entry t h i).virtAddr = c.memory.physToVirt a
  once : ∀ t h i j, s.Occupied t h i → s.Occupied t h j →
    (s.entry t h i).fk = (s.entry t h j).fk → i = j
  present : ∀ fk a, s.present fk = some a → c.memory.Holds a ∧ s.purpose a = some (.rfdc fk) ∧
    0 < s.refCount a ∧ ∃ i, s.Occupied fk.isIpv4 (c.line fk) i ∧
      (s.entry fk.isIpv4 (c.line fk) i).fk = fk

structure Kept (c : Config) (s : Tables) : Prop where
  lines : Lines s
  entries : Entries c s

section Searches

variable {keys : Nat → SwTableEntry} {fk : FragmentKey} {places : List Nat} {from_ : Option Nat}

theorem searchHit {t : Nat} (hit : searchKey keys fk places from_ = .hit t) :
    t ≠ 0 ∧ ∃ i ∈ places, (keys i).virtAddr = t ∧ (keys i).fk = fk := by
  induction places generalizing from_ with
  | nil => cases hit
  | cons cnt rest ih =>
    unfold searchKey at hit
    split at hit
    · obtain ⟨some_, i, mem, found⟩ := ih hit
      exact ⟨some_, i, List.mem_cons_of_mem cnt mem, found⟩
    · rename_i used
      split at hit
      · rename_i equal
        cases hit
        exact ⟨used, cnt, List.mem_cons_self, rfl, keyEqual.mp equal⟩
      · obtain ⟨some_, i, mem, found⟩ := ih hit
        exact ⟨some_, i, List.mem_cons_of_mem cnt mem, found⟩

theorem searchMiss {firstFree : Option Nat} (miss : searchKey keys fk places from_ = .miss firstFree) :
    (∀ i ∈ places, (keys i).virtAddr ≠ 0 → (keys i).fk ≠ fk) ∧
      (firstFree = from_ ∨ ∃ i ∈ places, firstFree = some i ∧ (keys i).virtAddr = 0) := by
  induction places generalizing from_ with
  | nil =>
    cases miss
    exact ⟨nofun, .inl rfl⟩
  | cons cnt rest ih =>
    unfold searchKey at miss
    split at miss
    · rename_i free
      obtain ⟨apart, which⟩ := ih miss
      refine ⟨?_, ?_⟩
      · intro i mem used
        rcases List.mem_cons.mp mem with rfl | later
        · exact absurd free used
        · exact apart i later used
      · rcases which with same | ⟨i, mem, found⟩
        · split at same
          · exact .inr ⟨cnt, List.mem_cons_self, same, free⟩
          · exact .inl same
        · exact .inr ⟨i, List.mem_cons_of_mem cnt mem, found⟩
    · split at miss
      · cases miss
      · rename_i other
        obtain ⟨apart, which⟩ := ih miss
        refine ⟨?_, ?_⟩
        · intro i mem used
          rcases List.mem_cons.mp mem with rfl | later
          · exact fun same => other (keyEqual.mpr same)
          · exact apart i later used
        · rcases which with same | ⟨i, mem, found⟩
          · exact .inl same
          · exact .inr ⟨i, List.mem_cons_of_mem cnt mem, found⟩

end Searches

section Changes

variable {c : Config} {s s' : Tables} {fk : FragmentKey} {a i h : Nat} {t : Bool}

structure Grows (c : Config) (s s' : Tables) (fk : FragmentKey) (i a : Nat) : Prop where
  place : i < fragsPerBin
  vacant : ¬ s.Occupied fk.isIpv4 (c.line fk) i
  occupied : ∀ t h j, s'.Occupied t h j →
    (t = fk.isIpv4 ∧ h = c.line fk ∧ j = i) ∨ s.Occupied t h j
  new : s'.table fk.isIpv4 (c.line fk) ≠ 0 ∧
    s'.entry fk.isIpv4 (c.line fk) i = ⟨c.memory.physToVirt a, fk⟩
  old : ∀ t h j, s.Occupied t h j → s'.table t h ≠ 0 ∧ s'.entry t h j = s.entry t h j
  present : s'.present = Function.update s.present fk (some a)
  rfdc : c.memory.Holds a ∧ s'.purpose a = some (.rfdc fk) ∧ 0 < s'.refCount a
  others : ∀ b g, s.purpose b = some (.rfdc g) → 0 < s.refCount b →
    s'.purpose b = some (.rfdc g) ∧ 0 < s'.refCount b

theorem growsEntries (entries : Entries c s) (grows : Grows c s s' fk i a)
    (absent : s.present fk = none) : Entries c s' := by
  have differs : ∀ t h j, s.Occupied t h j → (s.entry t h j).fk ≠ fk := by
    intro t h j occupied same
    obtain ⟨_, _, b, present, _⟩ := entries.entry t h j occupied
    rw [same, absent] at present
    cases present
  have nonzero := virtNonzero grows.rfdc.1
  refine ⟨?_, ?_, ?_⟩
  · intro t h j occupied
    rcases grows.occupied t h j occupied with ⟨rfl, rfl, rfl⟩ | before
    · rw [grows.new.2, grows.present]
      exact ⟨rfl, rfl, a, Function.update_self _ _ _, rfl⟩
    · rw [(grows.old t h j before).2, grows.present,
        Function.update_of_ne (differs t h j before)]
      exact entries.entry t h j before
  · intro t h j k occupiedJ occupiedK same
    rcases grows.occupied t h j occupiedJ with ⟨rfl, rfl, rfl⟩ | beforeJ
    · rcases grows.occupied _ _ k occupiedK with ⟨_, _, rfl⟩ | beforeK
      · rfl
      · rw [grows.new.2, (grows.old _ _ k beforeK).2] at same
        exact absurd same.symm (differs _ _ k beforeK)
    · rcases grows.occupied t h k occupiedK with ⟨rfl, rfl, rfl⟩ | beforeK
      · rw [grows.new.2, (grows.old _ _ j beforeJ).2] at same
        exact absurd same (differs _ _ j beforeJ)
      · rw [(grows.old t h j beforeJ).2, (grows.old t h k beforeK).2] at same
        exact entries.once t h j k beforeJ beforeK same
  · intro g b present
    rw [grows.present] at present
    by_cases same : g = fk
    · subst same
      rw [Function.update_self] at present
      cases present
      obtain ⟨holds, purpose, live⟩ := grows.rfdc
      refine ⟨holds, purpose, live, i, ⟨grows.new.1, grows.place, ?_⟩, ?_⟩
      · rw [grows.new.2]
        exact nonzero
      · rw [grows.new.2]
    · rw [Function.update_of_ne same] at present
      obtain ⟨holds, purpose, live, j, occupied, here⟩ := entries.present g b present
      obtain ⟨purpose', live'⟩ := grows.others b g purpose live
      obtain ⟨table, entry⟩ := grows.old _ _ j occupied
      refine ⟨holds, purpose', live', j, ⟨table, occupied.2.1, ?_⟩, ?_⟩
      · rw [entry]
        exact occupied.2.2
      · rw [entry]
        exact here

structure Shrinks (s s' : Tables) (t : Bool) (h i : Nat) : Prop where
  occupied : ∀ t' h' j, s'.Occupied t' h' j →
    s.Occupied t' h' j ∧ ¬ (t' = t ∧ h' = h ∧ j = i)
  kept : ∀ t' h' j, s.Occupied t' h' j → ¬ (t' = t ∧ h' = h ∧ j = i) →
    s'.table t' h' ≠ 0 ∧ s'.entry t' h' j = s.entry t' h' j
  present : s'.present = Function.update s.present (s.entry t h i).fk none
  others : ∀ b g, s.purpose b = some (.rfdc g) → 0 < s.refCount b →
    s'.purpose b = some (.rfdc g) ∧ 0 < s'.refCount b

theorem shrinksEntries (entries : Entries c s) (shrinks : Shrinks s s' t h i)
    (here : s.Occupied t h i) : Entries c s' := by
  obtain ⟨kind, line, _⟩ := entries.entry t h i here
  refine ⟨?_, ?_, ?_⟩
  · intro t' h' j occupied
    obtain ⟨before, other⟩ := shrinks.occupied t' h' j occupied
    obtain ⟨kind', line', b, present, virt⟩ := entries.entry t' h' j before
    have differs : (s.entry t' h' j).fk ≠ (s.entry t h i).fk := by
      intro same
      rw [same] at kind' line'
      obtain rfl : t' = t := kind'.symm.trans kind
      obtain rfl : h' = h := line'.symm.trans line
      exact other ⟨rfl, rfl, entries.once t' h' j i before here same⟩
    rw [(shrinks.kept t' h' j before other).2, shrinks.present, Function.update_of_ne differs]
    exact ⟨kind', line', b, present, virt⟩
  · intro t' h' j k occupiedJ occupiedK same
    obtain ⟨beforeJ, otherJ⟩ := shrinks.occupied t' h' j occupiedJ
    obtain ⟨beforeK, otherK⟩ := shrinks.occupied t' h' k occupiedK
    rw [(shrinks.kept t' h' j beforeJ otherJ).2, (shrinks.kept t' h' k beforeK otherK).2] at same
    exact entries.once t' h' j k beforeJ beforeK same
  · intro g b present
    rw [shrinks.present] at present
    by_cases same : g = (s.entry t h i).fk
    · rw [same, Function.update_self] at present
      cases present
    · rw [Function.update_of_ne same] at present
      obtain ⟨holds, purpose, live, j, occupied, found⟩ := entries.present g b present
      have other : ¬ (g.isIpv4 = t ∧ c.line g = h ∧ j = i) := by
        rintro ⟨rfl, rfl, rfl⟩
        exact same found.symm
      obtain ⟨purpose', live'⟩ := shrinks.others b g purpose live
      obtain ⟨table, entry⟩ := shrinks.kept _ _ j occupied other
      refine ⟨holds, purpose', live', j, ⟨table, occupied.2.1, ?_⟩, ?_⟩
      · rw [entry]
        exact occupied.2.2
      · rw [entry]
        exact found

end Changes

section Lookups

variable {c : Config} {s s' : Tables} {fk : FragmentKey} {line rfdc : Option Nat} {old : Nat}

def Tables.Absent (c : Config) (s : Tables) (fk : FragmentKey) : Prop :=
  ∀ i, s.Occupied fk.isIpv4 (c.line fk) i → (s.entry fk.isIpv4 (c.line fk) i).fk ≠ fk

def Tables.give (s : Tables) (a : Nat) (purpose : Purpose) : Tables :=
  { s with refCount := Function.update s.refCount a 1
           purpose := Function.update s.purpose a (some purpose) }

inductive Looks (c : Config) (s : Tables) (fk : FragmentKey) (line rfdc : Option Nat) (old : Nat) :
    Answer → Tables → Prop where
  | hit {i : Nat} (occupied : s.Occupied fk.isIpv4 (c.line fk) i)
      (same : (s.entry fk.isIpv4 (c.line fk) i).fk = fk) :
      Looks c s fk line rfdc old
        ⟨.success, c.memory.virtToPhys (s.entry fk.isIpv4 (c.line fk) i).virtAddr, none⟩ s
  | refused {e : Int} (absent : s.Absent c fk) : Looks c s fk line rfdc old ⟨.error e, old, none⟩ s
  | newLine {l a : Nat} {s₂ : Tables} (reached : reachesRfdc c s fk line = true)
      (absent : s.Absent c fk)
      (empty : s.table fk.isIpv4 (c.line fk) = 0) (holds : c.memory.Holds l)
      (free : s.refCount l = 0)
      (handled : iprMissHandling c ((s.give l (.line fk.isIpv4 (c.line fk))).setLine fk.isIpv4
        (c.line fk) l) fk rfdc l = some (a, s₂)) :
      Looks c s fk line rfdc old ⟨.miss, a, some (c.line fk, 0)⟩
        (s₂.insert l (Function.update (fun _ => .zero) 0 ⟨c.memory.physToVirt a, fk⟩) fk a)
  | oldLine {i a : Nat} {s₂ : Tables} (reached : reachesRfdc c s fk line = true)
      (absent : s.Absent c fk)
      (used : s.table fk.isIpv4 (c.line fk) ≠ 0) (place : i < fragsPerBin)
      (vacant : (s.entry fk.isIpv4 (c.line fk) i).virtAddr = 0)
      (handled : iprMissHandling c s fk rfdc old = some (a, s₂)) :
      Looks c s fk line rfdc old ⟨.miss, a, some (c.line fk, i)⟩
        ((s₂.setCount (s.table fk.isIpv4 (c.line fk))
            (s₂.refCount (s.table fk.isIpv4 (c.line fk)) + 1)).insert
          (s.table fk.isIpv4 (c.line fk))
          (Function.update (s₂.keys (s.table fk.isIpv4 (c.line fk))) i
            ⟨c.memory.physToVirt a, fk⟩) fk a)

theorem acquireCases {given : Option Nat} {purpose : Purpose} {r : Option Nat}
    (acquired : s.acquire c given purpose = some (r, s')) :
    (r = none ∧ s' = s) ∨
      ∃ a, given = some a ∧ r = some a ∧ c.memory.Holds a ∧ s.refCount a = 0 ∧
        s' = s.give a purpose := by
  unfold Tables.acquire at acquired
  split at acquired
  · cases acquired
    exact .inl ⟨rfl, rfl⟩
  · rename_i a
    split at acquired
    · rename_i fits
      cases acquired
      exact .inr ⟨a, rfl, rfl, fits.1, fits.2, rfl⟩
    · cases acquired

theorem missHandled {a b : Nat} (handled : iprMissHandling c s fk (some a) old = some (b, s')) :
    b = a ∧ c.memory.Holds a ∧ s.refCount a = 0 ∧ s' = s.give a (.rfdc fk) := by
  unfold iprMissHandling at handled
  split at handled
  · cases handled
  · rename_i acquired
    unfold Tables.acquire at acquired
    split at acquired
    · rename_i none_
      cases none_
    · split at acquired
      · cases acquired
      · cases acquired
  · rename_i acquired
    cases handled
    rcases acquireCases acquired with ⟨none_, _⟩ | ⟨a', given, taken, holds, free, after⟩
    · cases none_
    · cases given
      cases taken
      exact ⟨rfl, holds, free, after⟩

theorem lookupLooks {answer : Answer}
    (called : swIprLookupOrInsert c s fk line rfdc old = some (answer, s')) :
    Looks c s fk line rfdc old answer s' := by
  unfold swIprLookupOrInsert at called
  dsimp only at called
  split at called
  · rename_i empty
    have absent : s.Absent c fk := fun i occupied => absurd empty occupied.1
    split at called
    · cases called
    · rename_i acquired
      cases called
      rcases acquireCases acquired with ⟨_, rfl⟩ | ⟨a, _, none_, _⟩
      · exact .refused absent
      · cases none_
    · rename_i l s₁ acquired
      rcases acquireCases acquired with ⟨none_, _⟩ | ⟨a, given, some_, holds, free, rfl⟩
      · cases none_
      · cases some_
        split at called
        · cases called
        · rename_i handled
          cases called
          exact .newLine (by simp [reachesRfdc, empty, given]) absent empty holds free handled
  · rename_i used
    split at called
    · rename_i t hit
      cases called
      obtain ⟨some_, i, mem, rfl, same⟩ := searchHit hit
      exact .hit ⟨used, List.mem_range.mp mem, some_⟩ same
    · rename_i miss
      cases called
      exact .refused (fun i occupied => (searchMiss miss).1 i (List.mem_range.mpr occupied.2.1)
        occupied.2.2)
    · rename_i firstFree miss
      obtain ⟨apart, which⟩ := searchMiss miss
      have absent : s.Absent c fk :=
        fun i occupied => apart i (List.mem_range.mpr occupied.2.1) occupied.2.2
      rcases which with none_ | ⟨i, mem, some_, vacant⟩
      · cases none_
      · cases some_
        split at called
        · cases called
        · rename_i handled
          cases called
          exact .oldLine (by simp [reachesRfdc, used, miss]) absent used (List.mem_range.mp mem)
            vacant handled

theorem absentPresent (entries : Entries c s) (absent : s.Absent c fk) : s.present fk = none := by
  cases found : s.present fk with
  | none => rfl
  | some a =>
    obtain ⟨_, _, _, i, occupied, same⟩ := entries.present fk a found
    exact absurd same (absent i occupied)

theorem liveOther {a b : Nat} (live : 0 < s.refCount b) (free : s.refCount a = 0) : b ≠ a := by
  intro same
  rw [same, free] at live
  exact absurd live (Nat.lt_irrefl _)

theorem linesAt (lines : Lines s) {t : Bool} {h : Nat}
    (here : s'.table t h ≠ 0 → s'.purpose (s'.table t h) = some (.line t h) ∧
      0 < s'.refCount (s'.table t h) ∧
      s'.refCount (s'.table t h) = marks fragsPerBin (fun i => (s'.entry t h i).virtAddr ≠ 0))
    (others : ∀ t' h', ¬ (t' = t ∧ h' = h) → s'.table t' h' = s.table t' h' ∧
      (s.table t' h' ≠ 0 → s'.refCount (s.table t' h') = s.refCount (s.table t' h') ∧
        s'.purpose (s.table t' h') = s.purpose (s.table t' h') ∧
        s'.keys (s.table t' h') = s.keys (s.table t' h')))
    (idle : ∀ a, s'.refCount a = 0 → s'.purpose a = none) : Lines s' := by
  refine ⟨?_, idle⟩
  intro t' h' used
  by_cases at_ : t' = t ∧ h' = h
  · obtain ⟨rfl, rfl⟩ := at_
    exact here used
  · obtain ⟨table, same⟩ := others t' h' at_
    have before : s.table t' h' ≠ 0 := by rwa [table] at used
    obtain ⟨count, purpose, keys⟩ := same before
    unfold Tables.entry
    rw [table, count, purpose, keys]
    exact lines.line t' h' before

theorem linesApart (lines : Lines s) {t t' : Bool} {h h' : Nat} (used : s.table t h ≠ 0)
    (used' : s.table t' h' ≠ 0) (other : ¬ (t' = t ∧ h' = h)) : s.table t' h' ≠ s.table t h := by
  intro same
  have purpose := (lines.line t h used).1
  rw [← same, (lines.line t' h' used').1] at purpose
  cases purpose
  exact other ⟨rfl, rfl⟩

theorem newLineKept (kept : Kept c s) (absent : s.Absent c fk) {l a : Nat}
    (empty : s.table fk.isIpv4 (c.line fk) = 0) (holdsLine : c.memory.Holds l)
    (freeLine : s.refCount l = 0) (holds : c.memory.Holds a)
    (free : ((s.give l (.line fk.isIpv4 (c.line fk))).setLine fk.isIpv4 (c.line fk) l).refCount a
      = 0) :
    Kept c ((((s.give l (.line fk.isIpv4 (c.line fk))).setLine fk.isIpv4 (c.line fk) l).give a
      (.rfdc fk)).insert l (Function.update (fun _ => .zero) 0 ⟨c.memory.physToVirt a, fk⟩) fk a) := by
  have apart : a ≠ l := by
    intro same
    subst same
    simp [Tables.give, Tables.setLine] at free
  have freeOld : s.refCount a = 0 := by
    simpa [Tables.give, Tables.setLine, apart] using free
  generalize after : (((s.give l (.line fk.isIpv4 (c.line fk))).setLine fk.isIpv4 (c.line fk)
    l).give a (.rfdc fk)).insert l (Function.update (fun _ => .zero) 0
      ⟨c.memory.physToVirt a, fk⟩) fk a = s'
  have table : ∀ t h, s'.table t h =
      if t = fk.isIpv4 ∧ h = c.line fk then l else s.table t h := by
    rw [← after]
    exact fun _ _ => rfl
  have keysHere : s'.keys l = Function.update (fun _ => .zero) 0 ⟨c.memory.physToVirt a, fk⟩ := by
    rw [← after]
    exact Function.update_self _ _ _
  have countHere : s'.refCount l = 1 := by
    rw [← after]
    simp [Tables.insert, Tables.give, Tables.setLine, apart.symm]
  have purposeHere : s'.purpose l = some (.line fk.isIpv4 (c.line fk)) := by
    rw [← after]
    simp [Tables.insert, Tables.give, Tables.setLine, apart.symm]
  have countRfdc : s'.refCount a = 1 := by
    rw [← after]
    simp [Tables.insert, Tables.give, Tables.setLine]
  have purposeRfdc : s'.purpose a = some (.rfdc fk) := by
    rw [← after]
    simp [Tables.insert, Tables.give, Tables.setLine]
  have rest : ∀ b, b ≠ l → b ≠ a → s'.refCount b = s.refCount b ∧ s'.purpose b = s.purpose b ∧
      s'.keys b = s.keys b := by
    intro b otherL otherA
    rw [← after]
    simp [Tables.insert, Tables.give, Tables.setLine, otherL, otherA]
  have present : s'.present = Function.update s.present fk (some a) := by
    rw [← after]
    rfl
  clear after
  have elsewhere : ∀ t h, s.table t h ≠ 0 → s'.table t h = s.table t h ∧
      s'.refCount (s.table t h) = s.refCount (s.table t h) ∧
      s'.purpose (s.table t h) = s.purpose (s.table t h) ∧
      s'.keys (s.table t h) = s.keys (s.table t h) := by
    intro t h used
    have live := (kept.lines.line t h used).2.1
    refine ⟨?_, rest _ (liveOther live freeLine) (liveOther live freeOld)⟩
    rw [table, if_neg]
    rintro ⟨rfl, rfl⟩
    exact used empty
  have here : s'.table fk.isIpv4 (c.line fk) = l := by
    rw [table, if_pos ⟨rfl, rfl⟩]
  refine ⟨@linesAt s s' kept.lines fk.isIpv4 (c.line fk) ?_ ?_ ?_, ?_⟩
  · intro _
    unfold Tables.entry
    rw [here, purposeHere, countHere, keysHere]
    refine ⟨rfl, Nat.one_pos, ?_⟩
    have one := @marksMore fragsPerBin 0 (fun _ => False)
      (fun i => (Function.update (fun _ => SwTableEntry.zero) 0
        ⟨c.memory.physToVirt a, fk⟩ i).virtAddr ≠ 0) _ _ (by decide) id
      (by simpa using virtNonzero holds) (by intro b other; simp [other, SwTableEntry.zero])
    rw [one, marksNone (fun _ _ => id)]
  · intro t h at_
    refine ⟨by rw [table, if_neg at_], ?_⟩
    intro used
    exact (elsewhere t h used).2
  · intro b idle
    by_cases sameL : b = l
    · rw [sameL, countHere] at idle
      cases idle
    · by_cases sameA : b = a
      · rw [sameA, countRfdc] at idle
        cases idle
      · obtain ⟨count, purpose, _⟩ := rest b sameL sameA
        rw [count] at idle
        rw [purpose]
        exact kept.lines.idle b idle
  · refine growsEntries kept.entries (i := 0) ⟨by decide, fun occupied => occupied.1 empty, ?_, ?_,
      ?_, present, ⟨holds, purposeRfdc, by rw [countRfdc]; exact Nat.one_pos⟩, ?_⟩
      (absentPresent kept.entries absent)
    · intro t h j occupied
      by_cases at_ : t = fk.isIpv4 ∧ h = c.line fk
      · obtain ⟨rfl, rfl⟩ := at_
        refine .inl ⟨rfl, rfl, ?_⟩
        have used := occupied.2.2
        unfold Tables.entry at used
        rw [here, keysHere] at used
        by_contra other
        rw [Function.update_of_ne other] at used
        exact used rfl
      · have before : s.table t h ≠ 0 := by
          have used := occupied.1
          rwa [table, if_neg at_] at used
        obtain ⟨table', _, _, keys⟩ := elsewhere t h before
        refine .inr ⟨before, occupied.2.1, ?_⟩
        have used := occupied.2.2
        unfold Tables.entry at used ⊢
        rwa [table', keys] at used
    · unfold Tables.entry
      rw [here, keysHere]
      exact ⟨holdsNonzero holdsLine, Function.update_self _ _ _⟩
    · intro t h j occupied
      obtain ⟨table', _, _, keys⟩ := elsewhere t h occupied.1
      unfold Tables.entry
      rw [table', keys]
      exact ⟨occupied.1, rfl⟩
    · intro b g purpose live
      have otherL := liveOther live freeLine
      have otherA := liveOther live freeOld
      obtain ⟨count, purpose', _⟩ := rest b otherL otherA
      rw [count, purpose']
      exact ⟨purpose, live⟩

theorem oldLineKept (kept : Kept c s) (absent : s.Absent c fk) {i a : Nat}
    (used : s.table fk.isIpv4 (c.line fk) ≠ 0) (place : i < fragsPerBin)
    (vacant : (s.entry fk.isIpv4 (c.line fk) i).virtAddr = 0) (holds : c.memory.Holds a)
    (free : s.refCount a = 0) :
    Kept c ((((s.give a (.rfdc fk)).setCount (s.table fk.isIpv4 (c.line fk))
        ((s.give a (.rfdc fk)).refCount (s.table fk.isIpv4 (c.line fk)) + 1)).insert
      (s.table fk.isIpv4 (c.line fk))
      (Function.update ((s.give a (.rfdc fk)).keys (s.table fk.isIpv4 (c.line fk))) i
        ⟨c.memory.physToVirt a, fk⟩) fk a)) := by
  obtain ⟨purposeOld, liveOld, countOld⟩ := kept.lines.line _ _ used
  generalize at_ : s.table fk.isIpv4 (c.line fk) = l at *
  have apart : l ≠ a := liveOther liveOld free
  generalize after : (((s.give a (.rfdc fk)).setCount l ((s.give a (.rfdc fk)).refCount l +
    1)).insert l (Function.update ((s.give a (.rfdc fk)).keys l) i
      ⟨c.memory.physToVirt a, fk⟩) fk a) = s'
  have table : s'.table = s.table := by
    rw [← after]
    rfl
  have keysHere : s'.keys l = Function.update (s.keys l) i ⟨c.memory.physToVirt a, fk⟩ := by
    rw [← after]
    exact Function.update_self _ _ _
  have countHere : s'.refCount l = s.refCount l + 1 := by
    rw [← after]
    simp [Tables.insert, Tables.setCount, Tables.give, apart]
  have purposeHere : s'.purpose l = s.purpose l := by
    rw [← after]
    simp [Tables.insert, Tables.setCount, Tables.give, apart]
  have countRfdc : s'.refCount a = 1 := by
    rw [← after]
    simp [Tables.insert, Tables.setCount, Tables.give, apart.symm]
  have purposeRfdc : s'.purpose a = some (.rfdc fk) := by
    rw [← after]
    simp [Tables.insert, Tables.setCount, Tables.give]
  have rest : ∀ b, b ≠ l → b ≠ a → s'.refCount b = s.refCount b ∧ s'.purpose b = s.purpose b ∧
      s'.keys b = s.keys b := by
    intro b otherL otherA
    rw [← after]
    simp [Tables.insert, Tables.setCount, Tables.give, otherL, otherA]
  have present : s'.present = Function.update s.present fk (some a) := by
    rw [← after]
    rfl
  clear after
  have vacant' : (s.keys l i).virtAddr = 0 := by
    unfold Tables.entry at vacant
    rwa [at_] at vacant
  have elsewhere : ∀ t h, ¬ (t = fk.isIpv4 ∧ h = c.line fk) → s.table t h ≠ 0 →
      s'.refCount (s.table t h) = s.refCount (s.table t h) ∧
      s'.purpose (s.table t h) = s.purpose (s.table t h) ∧
      s'.keys (s.table t h) = s.keys (s.table t h) := by
    intro t h other there
    have live := (kept.lines.line t h there).2.1
    have otherL : s.table t h ≠ l := by
      rw [← at_]
      exact linesApart kept.lines (by rwa [at_]) there other
    exact rest _ otherL (liveOther live free)
  refine ⟨@linesAt s s' kept.lines fk.isIpv4 (c.line fk) ?_ ?_ ?_, ?_⟩
  · intro _
    unfold Tables.entry at countOld ⊢
    rw [at_] at countOld
    rw [table, at_, purposeHere, countHere, keysHere]
    refine ⟨purposeOld, Nat.succ_pos _, ?_⟩
    rw [countOld]
    refine (marksMore place (by simpa using vacant') ?_ ?_).symm
    · simpa using virtNonzero holds
    · intro b other
      rw [Function.update_of_ne other]
  · intro t h other
    rw [table]
    exact ⟨rfl, elsewhere t h other⟩
  · intro b idle
    by_cases sameL : b = l
    · rw [sameL, countHere] at idle
      cases idle
    · by_cases sameA : b = a
      · rw [sameA, countRfdc] at idle
        cases idle
      · obtain ⟨count, purpose, _⟩ := rest b sameL sameA
        rw [count] at idle
        rw [purpose]
        exact kept.lines.idle b idle
  · have entry : ∀ t h j, ¬ (t = fk.isIpv4 ∧ h = c.line fk ∧ j = i) → s.table t h ≠ 0 →
        s'.entry t h j = s.entry t h j := by
      intro t h j other there
      unfold Tables.entry
      rw [table]
      by_cases here : t = fk.isIpv4 ∧ h = c.line fk
      · obtain ⟨rfl, rfl⟩ := here
        rw [at_, keysHere, Function.update_of_ne (fun same => other ⟨rfl, rfl, same⟩)]
      · rw [(elsewhere t h here there).2.2]
    have old : ∀ t h j, s.Occupied t h j → ¬ (t = fk.isIpv4 ∧ h = c.line fk ∧ j = i) := by
      rintro t h j occupied ⟨rfl, rfl, rfl⟩
      exact occupied.2.2 vacant
    refine growsEntries kept.entries (i := i) ⟨place, fun occupied => occupied.2.2 vacant, ?_, ?_,
      ?_, present, ⟨holds, purposeRfdc, by rw [countRfdc]; exact Nat.one_pos⟩, ?_⟩
      (absentPresent kept.entries absent)
    · intro t h j occupied
      by_cases here : t = fk.isIpv4 ∧ h = c.line fk ∧ j = i
      · exact .inl here
      · have there : s.table t h ≠ 0 := by
          rw [← table]
          exact occupied.1
        refine .inr ⟨there, occupied.2.1, ?_⟩
        rw [← entry t h j here there]
        exact occupied.2.2
    · unfold Tables.entry
      rw [table, at_, keysHere]
      exact ⟨used, Function.update_self _ _ _⟩
    · intro t h j occupied
      rw [table]
      exact ⟨occupied.1, entry t h j (old t h j occupied) occupied.1⟩
    · intro b g purpose live
      have otherA := liveOther live free
      have otherL : b ≠ l := by
        rintro rfl
        rw [purposeOld] at purpose
        cases purpose
      obtain ⟨count, purpose', _⟩ := rest b otherL otherA
      rw [count, purpose']
      exact ⟨purpose, live⟩

end Lookups

end Flexbuild.Ipr
