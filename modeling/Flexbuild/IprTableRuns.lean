import Flexbuild.IprTableKept

/-! Deletions, and whole runs. A run in which every RFDC asked for is given keeps the table right;
an RFDC that is refused after its line was made leaves an entry that points to the line. -/
namespace Flexbuild.Ipr
open Words Marks

section Deletions

variable {c : Config} {s s' : Tables} {t : Bool} {h i : Nat}

theorem deleteFields (s : Tables) (t : Bool) (h i l : Nat) :
    (s.delete t h i l).keys = Function.update s.keys l
        (Function.update (s.keys l) i { s.keys l i with virtAddr := 0 }) ∧
      (s.delete t h i l).refCount = Function.update s.refCount l (s.refCount l - 1) ∧
      (s.delete t h i l).present = Function.update s.present (s.keys l i).fk none := by
  unfold Tables.delete
  dsimp only
  split
  · exact ⟨rfl, rfl, rfl⟩
  · exact ⟨rfl, rfl, rfl⟩

theorem deleteLine (s : Tables) (t : Bool) (h i l : Nat) :
    (s.refCount l - 1 = 0 ∧ (s.delete t h i l).purpose = Function.update s.purpose l none ∧
        (s.delete t h i l).table = fun t' h' => if t' = t ∧ h' = h then 0 else s.table t' h') ∨
      (s.refCount l - 1 ≠ 0 ∧ (s.delete t h i l).purpose = s.purpose ∧
        (s.delete t h i l).table = s.table) := by
  unfold Tables.delete
  dsimp only
  split
  · rename_i last
    refine .inl ⟨?_, rfl, rfl⟩
    simpa [Tables.setCount] using last
  · rename_i more
    refine .inr ⟨?_, rfl, rfl⟩
    simpa [Tables.setCount] using more

theorem deleteKept (kept : Kept c s) (here : s.Occupied t h i) :
    Kept c (s.delete t h i (s.table t h)) := by
  obtain ⟨used, place, virt⟩ := id here
  obtain ⟨purposeOld, liveOld, countOld⟩ := kept.lines.line t h used
  obtain ⟨keys, count, present⟩ := deleteFields s t h i (s.table t h)
  have change := deleteLine s t h i (s.table t h)
  generalize s.delete t h i (s.table t h) = s' at *
  have keysHere : s'.keys (s.table t h) = Function.update (s.keys (s.table t h)) i
      { s.entry t h i with virtAddr := 0 } := by
    rw [keys]
    exact Function.update_self _ _ _
  have countHere : s'.refCount (s.table t h) = s.refCount (s.table t h) - 1 := by
    rw [count]
    exact Function.update_self _ _ _
  have fewer : s'.refCount (s.table t h) =
      marks fragsPerBin (fun j => (s'.keys (s.table t h) j).virtAddr ≠ 0) := by
    have one := @marksFewer fragsPerBin i (fun j => (s.entry t h j).virtAddr ≠ 0)
      (fun j => (s'.keys (s.table t h) j).virtAddr ≠ 0) _ _ place virt
      (by rw [keysHere]; simp)
      (by intro b other; rw [keysHere, Function.update_of_ne other]; rfl)
    rw [countHere, countOld]
    omega
  have rest : ∀ b, b ≠ s.table t h → s'.refCount b = s.refCount b ∧ s'.purpose b = s.purpose b ∧
      s'.keys b = s.keys b := by
    intro b other
    rw [count, keys, Function.update_of_ne other, Function.update_of_ne other]
    rcases change with ⟨_, purpose, _⟩ | ⟨_, purpose, _⟩
    · rw [purpose, Function.update_of_ne other]
      exact ⟨rfl, rfl, rfl⟩
    · rw [purpose]
      exact ⟨rfl, rfl, rfl⟩
  have elsewhere : ∀ t' h', ¬ (t' = t ∧ h' = h) → s'.table t' h' = s.table t' h' ∧
      (s.table t' h' ≠ 0 → s'.refCount (s.table t' h') = s.refCount (s.table t' h') ∧
        s'.purpose (s.table t' h') = s.purpose (s.table t' h') ∧
        s'.keys (s.table t' h') = s.keys (s.table t' h')) := by
    intro t' h' other
    refine ⟨?_, fun there => rest _ (linesApart kept.lines used there other)⟩
    rcases change with ⟨_, _, table⟩ | ⟨_, _, table⟩
    · rw [table]
      exact if_neg other
    · rw [table]
  have stays : ∀ j, s.Occupied t h j → j ≠ i → s'.table t h = s.table t h := by
    intro j occupied other
    rcases change with ⟨last, _, _⟩ | ⟨_, _, table⟩
    · rw [← countHere, fewer] at last
      have some_ := @marksPositive fragsPerBin j
        (fun j => (s'.keys (s.table t h) j).virtAddr ≠ 0) _ occupied.2.1 (by
          rw [keysHere, Function.update_of_ne other]
          exact occupied.2.2)
      omega
    · rw [table]
  refine ⟨@linesAt s s' kept.lines t h ?_ elsewhere ?_, ?_⟩
  · intro still
    rcases change with ⟨_, _, table⟩ | ⟨more, purpose, table⟩
    · rw [table] at still
      exact absurd (if_pos ⟨rfl, rfl⟩) still
    · unfold Tables.entry
      rw [table, purpose]
      refine ⟨purposeOld, ?_, fewer⟩
      rw [countHere]
      exact Nat.pos_of_ne_zero more
  · intro b idle
    by_cases same : b = s.table t h
    · rcases change with ⟨_, purpose, _⟩ | ⟨more, _, _⟩
      · rw [purpose, same, Function.update_self]
      · rw [same, countHere] at idle
        exact absurd idle more
    · obtain ⟨count', purpose', _⟩ := rest b same
      rw [count'] at idle
      rw [purpose']
      exact kept.lines.idle b idle
  · have entry : ∀ t' h' j, ¬ (t' = t ∧ h' = h ∧ j = i) → s.table t' h' ≠ 0 →
        s'.table t' h' = s.table t' h' → s'.entry t' h' j = s.entry t' h' j := by
      intro t' h' j other there same
      unfold Tables.entry
      rw [same]
      by_cases at_ : t' = t ∧ h' = h
      · obtain ⟨rfl, rfl⟩ := at_
        rw [keysHere, Function.update_of_ne (fun same => other ⟨rfl, rfl, same⟩)]
      · rw [((elsewhere t' h' at_).2 there).2.2]
    refine shrinksEntries kept.entries ⟨?_, ?_, present, ?_⟩ here
    · intro t' h' j occupied
      have same : s'.table t' h' = s.table t' h' := by
        by_cases at_ : t' = t ∧ h' = h
        · obtain ⟨rfl, rfl⟩ := at_
          rcases change with ⟨_, _, table⟩ | ⟨_, _, table⟩
          · have still := occupied.1
            rw [table] at still
            exact absurd (if_pos ⟨rfl, rfl⟩) still
          · rw [table]
        · exact (elsewhere t' h' at_).1
      have there : s.table t' h' ≠ 0 := by
        rw [← same]
        exact occupied.1
      have other : ¬ (t' = t ∧ h' = h ∧ j = i) := by
        rintro ⟨rfl, rfl, rfl⟩
        refine occupied.2.2 ?_
        unfold Tables.entry
        rw [same, keysHere, Function.update_self]
      refine ⟨⟨there, occupied.2.1, ?_⟩, other⟩
      rw [← entry t' h' j other there same]
      exact occupied.2.2
    · intro t' h' j occupied other
      have same : s'.table t' h' = s.table t' h' := by
        by_cases at_ : t' = t ∧ h' = h
        · obtain ⟨rfl, rfl⟩ := at_
          exact stays j occupied (fun same => other ⟨rfl, rfl, same⟩)
        · exact (elsewhere t' h' at_).1
      rw [same]
      exact ⟨occupied.1, entry t' h' j other occupied.1 same⟩
    · intro b g purpose live
      have otherL : b ≠ s.table t h := by
        rintro rfl
        rw [purposeOld] at purpose
        cases purpose
      obtain ⟨count', purpose', _⟩ := rest b otherL
      rw [count', purpose']
      exact ⟨purpose, live⟩

theorem deleteCases {pos : Nat} {e : Int} (called : swTableKeyDelete s t h pos = some (e, s')) :
    (e = eio ∧ s' = s) ∨
      (e = 0 ∧ s.Occupied t h pos ∧ s' = s.delete t h pos (s.table t h)) := by
  unfold swTableKeyDelete at called
  split at called
  · rename_i inside
    dsimp only at called
    split at called
    · cases called
      exact .inl ⟨rfl, rfl⟩
    · rename_i used
      split at called
      · cases called
        exact .inl ⟨rfl, rfl⟩
      · rename_i virt
        cases called
        exact .inr ⟨rfl, ⟨used, inside.2, virt⟩, rfl⟩
  · cases called

theorem releaseKept (kept : Kept c s) {a : Nat} (called : s.release a = some s') : Kept c s' := by
  unfold Tables.release at called
  split at called
  · rename_i fk mine
    split at called
    · cases called
    · rename_i dropped
      cases called
      have line : ∀ t h, s.table t h ≠ 0 → s.table t h ≠ a := by
        intro t h used same
        have purpose := (kept.lines.line t h used).1
        rw [same, mine] at purpose
        cases purpose
      refine ⟨⟨?_, ?_⟩, ⟨kept.entries.entry, kept.entries.once, ?_⟩⟩
      · intro t h used
        dsimp only at used ⊢
        rw [Function.update_of_ne (line t h used), Function.update_of_ne (line t h used)]
        exact kept.lines.line t h used
      · intro b idle
        dsimp only at idle ⊢
        by_cases same : b = a
        · rw [same, Function.update_self]
        · rw [Function.update_of_ne same] at idle ⊢
          exact kept.lines.idle b idle
      · intro g b present
        obtain ⟨holds, purpose, live, found⟩ := kept.entries.present g b present
        have other : b ≠ a := by
          rintro rfl
          rw [mine] at purpose
          cases purpose
          exact dropped present
        dsimp only
        rw [Function.update_of_ne other, Function.update_of_ne other]
        exact ⟨holds, purpose, live, found⟩
  · cases called

end Deletions

section Runs

variable {c : Config} {s s' : Tables}

theorem startKept : Kept c Tables.start :=
  ⟨⟨fun _ _ used => absurd rfl used, fun _ _ => rfl⟩,
    fun _ _ _ occupied => absurd rfl occupied.1, fun _ _ _ _ occupied => absurd rfl occupied.1,
    nofun⟩

theorem lookupKept (kept : Kept c s) {fk : FragmentKey} {line rfdc : Option Nat} {old : Nat}
    {answer : Answer} (allowed : s.allowed c (.lookupOrInsert fk line rfdc old) = true)
    (looks : Looks c s fk line rfdc old answer s') : Kept c s' := by
  have asked : reachesRfdc c s fk line = true → ∃ a, rfdc = some a := by
    intro reached
    simpa [Tables.allowed, reached, Option.isSome_iff_exists] using allowed
  cases looks with
  | hit occupied same => exact kept
  | refused absent => exact kept
  | newLine reached absent empty holdsLine freeLine handled =>
    obtain ⟨a, rfl⟩ := asked reached
    obtain ⟨rfl, holds, free, rfl⟩ := missHandled handled
    exact newLineKept kept absent empty holdsLine freeLine holds free
  | oldLine reached absent used place vacant handled =>
    obtain ⟨a, rfl⟩ := asked reached
    obtain ⟨rfl, holds, free, rfl⟩ := missHandled handled
    exact oldLineKept kept absent used place vacant holds free

theorem callKept (kept : Kept c s) {a : Call} (allowed : s.allowed c a = true)
    (done : s.call c a = some s') : Kept c s' := by
  cases a with
  | lookupOrInsert fk line rfdc old =>
    obtain ⟨⟨answer, after⟩, called, rfl⟩ := Option.map_eq_some_iff.mp done
    exact lookupKept kept allowed (lookupLooks called)
  | keyDelete t h pos =>
    obtain ⟨⟨e, after⟩, called, rfl⟩ := Option.map_eq_some_iff.mp done
    rcases deleteCases called with ⟨_, rfl⟩ | ⟨_, here, rfl⟩
    · exact kept
    · exact deleteKept kept here
  | release a => exact releaseKept kept done

theorem runKept (kept : Kept c s) {calls : List Call} (allowed : s.allAllowed c calls = true)
    (done : s.run c calls = some s') : Kept c s' := by
  induction calls generalizing s with
  | nil =>
    cases done
    exact kept
  | cons a rest ih =>
    obtain ⟨mid, first, later⟩ := Option.bind_eq_some_iff.mp done
    rw [Tables.allAllowed, first, Option.all_some, Bool.and_eq_true] at allowed
    exact ih (callKept kept allowed.1 first) allowed.2 later

theorem keptRight (kept : Kept c s) : s.Right c := by
  refine ⟨?_, ?_, ?_, ?_, ?_, ?_⟩
  · intro t h
    by_cases empty : s.table t h = 0
    · exact .inl empty
    · exact .inr (kept.lines.line t h empty)
  · intro t h h' i j here there same
    have lineH := (kept.entries.entry t h i here).2.1
    have lineH' := (kept.entries.entry t h' j there).2.1
    rw [same] at lineH
    obtain rfl : h = h' := lineH.symm.trans lineH'
    exact ⟨rfl, kept.entries.once t h i j here there same⟩
  · intro t h i here
    obtain ⟨_, _, a, present, virt⟩ := kept.entries.entry t h i here
    obtain ⟨holds, purpose, live, _⟩ := kept.entries.present _ a present
    exact ⟨a, holds, virt, purpose, live⟩
  · intro fk line rfdc old answer after called
    have none_ : s.Absent c fk → s.present fk = none := absentPresent kept.entries
    cases lookupLooks called with
    | @hit i occupied same =>
      obtain ⟨_, _, a, present, virt⟩ := kept.entries.entry _ _ i occupied
      rw [same] at present
      refine ⟨⟨fun _ => by rw [present]; nofun, fun _ => rfl⟩, fun _ => ?_⟩
      rw [virt, virtToPhysBack (kept.entries.present fk a present).1]
      exact present
    | refused absent => exact ⟨⟨nofun, fun some_ => absurd (none_ absent) some_⟩, nofun⟩
    | newLine reached absent empty holdsLine freeLine handled =>
      exact ⟨⟨nofun, fun some_ => absurd (none_ absent) some_⟩, nofun⟩
    | oldLine reached absent used place vacant handled =>
      exact ⟨⟨nofun, fun some_ => absurd (none_ absent) some_⟩, nofun⟩
  · intro fk line rfdc old answer after e called error
    cases lookupLooks called with
    | hit occupied same => rfl
    | refused absent => rfl
    | newLine reached absent empty holdsLine freeLine handled => cases error
    | oldLine reached absent used place vacant handled => cases error
  · intro t h pos e after called error
    rcases deleteCases called with ⟨_, same⟩ | ⟨zero, _⟩
    · exact same
    · exact absurd zero error

theorem keysKept {calls : List Call} (allowed : Tables.start.allAllowed c calls = true)
    (done : Tables.start.run c calls = some s) : s.Right c :=
  keptRight (runKept startKept allowed done)

theorem lineAsRfdc {fk : FragmentKey} {l old : Nat} (empty : s.table fk.isIpv4 (c.line fk) = 0)
    (holds : c.memory.Holds l) (free : s.refCount l = 0) {answer : Answer}
    (called : swIprLookupOrInsert c s fk (some l) none old = some (answer, s')) : ¬ s'.Right c := by
  simp only [swIprLookupOrInsert, empty, if_true, Tables.acquire, holds, free, and_self,
    iprMissHandling] at called
  cases called
  intro right
  have nonzero := virtNonzero holds
  obtain ⟨a, holds', virt, purpose, _⟩ := right.rfdc fk.isIpv4 (c.line fk) 0
    ⟨by simpa [Tables.setLine, Tables.insert] using holdsNonzero holds, by decide,
      by simpa [Tables.setLine, Tables.insert, Tables.entry] using nonzero⟩
  have same : c.memory.physToVirt l = c.memory.physToVirt a := by
    simpa [Tables.setLine, Tables.insert, Tables.entry] using virt
  obtain rfl : l = a := by
    rw [← virtToPhysBack holds, same, virtToPhysBack holds']
  simp [Tables.setLine, Tables.insert] at purpose

def Config.sample : Config where
  memory := ⟨0x6000000000, 0x40000000, 0x1000, by decide, by decide, by decide, by decide⟩
  hash := fun _ => 7

def tableCalls : List Call :=
  [.lookupOrInsert (.ipv4 1 2 3 17) (some 0x6000000000) (some 0x6000000200) 0,
    .lookupOrInsert (.ipv4 1 2 4 17) none (some 0x6000000240) 0,
    .lookupOrInsert (.ipv4 1 2 3 17) none none 0, .keyDelete true 7 0]

theorem keysKeptDeleted :
    ∃ s, Tables.start.run .sample tableCalls = some s ∧ s.refCount 0x6000000000 = 1 ∧
      s.Right .sample := by
  have outcome : (Tables.start.run .sample tableCalls).map (fun s => s.refCount 0x6000000000) =
      some 1 := by decide
  obtain ⟨s, done, count⟩ := Option.map_eq_some_iff.mp outcome
  exact ⟨s, done, count, keysKept (by decide) done⟩

theorem rfdcRefused :
    ∃ (c : Config) (calls : List Call) (s : Tables), Tables.start.run c calls = some s ∧
      ¬ s.Right c := by
  refine ⟨.sample, [.lookupOrInsert (.ipv4 1 2 3 17) (some 0x6000000000) none 0], ?_⟩
  have outcome : (swIprLookupOrInsert .sample Tables.start (.ipv4 1 2 3 17) (some 0x6000000000)
      none 0).map Prod.fst = some ⟨.miss, 0x6000000000, some (7, 0)⟩ := by decide
  obtain ⟨⟨answer, s⟩, called, _⟩ := Option.map_eq_some_iff.mp outcome
  refine ⟨s, ?_, lineAsRfdc rfl (by decide) rfl called⟩
  simp only [Tables.run, Tables.call, called, Option.map_some, Option.bind_some]

end Runs

end Flexbuild.Ipr
