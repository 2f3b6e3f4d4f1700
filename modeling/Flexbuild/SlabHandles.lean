import Flexbuild.SlabAccounting

/-! `slab_create` and `slab_free` as whole calls, one after the other. Live handles are
distinct and decode to the record they were built from, and a creation that fails leaves
everything as it was unless it ends in `error_recovery_return`. -/
namespace Flexbuild.Slab
open Words Ledgers

structure Made where
  handle : Nat
  cluster : Nat
  poolId : Nat
  deriving DecidableEq, Repr

def Made.place (m : Made) : Place :=
  if m.cluster = 0 then .shram m.poolId else .ddr m.cluster m.poolId

inductive Answer where
  | error (e : Errno)
  | made (m : Made)
  deriving DecidableEq, Repr

def slabCreate (c : Config) (q : Request) (cdma : Bool) (s : Globals) : Option (Answer × Globals) :=
  match c.rejects q with
  | some e => some (.error e, s)
  | none =>
      match slabFindAndReserveBpid c q.need s with
      | (none, s) => some (.error .enomem, s)
      | (some index, s) =>
          match takeShram q s with
          | (some id, s) => some (.made ⟨slabHwPoolCreate id, 0, id⟩, fillShram q index id s)
          | (none, s) =>
              if q.inDdr = false then some (.error .enomem, giveBack q index s)
              else if s.locked then none
              else
                match ddrSection c q index cdma s with
                | (.full, s) => some (.error .enomem, s)
                | (.refused, s) => some (.error .enomem, s)
                | (.made cluster id, s) =>
                    some (.made ⟨slabHwPoolCreate (slabClusterIdSet cluster ||| id), cluster, id⟩, s)

def slabFree (slab : Nat) (s : Globals) : Option (Option Errno × Globals) :=
  if slabIsHwPool slab = false then some (some .einval, s)
  else
    match placeOf slab with
    | .shram id => some (freeShram id s)
    | .ddr cluster id =>
        match freeDdrMark cluster id s with
        | (some e, s) => some (some e, s)
        | (none, marked) =>
            if marked.locked then none
            else some (none, freeDdrPush cluster id (s.vpool (.ddr cluster id)) marked)

def Config.stalls (c : Config) (cdma : Bool) (s : Globals) : Bool :=
  decide (s.pointer ≠ c.last) &&
    (s.contextAddress (slabClusterIdGet (slabVpPoolGet (s.stack s.pointer)))).isNone &&
    (!cdma || (slabFindAndReserveBpid c c.managementNeed s).1.isNone)

def Config.loses (c : Config) (q : Request) (cdma : Bool) (s : Globals) : Bool :=
  match c.rejects q, slabFindAndReserveBpid c q.need s with
  | none, (some _, s) => q.inDdr && c.stalls cdma s
  | _, _ => false

inductive Call where
  | create (q : Request) (cdma : Bool)
  | free (slab : Nat)
  deriving DecidableEq, Repr

structure Session where
  globals : Globals
  slabs : List Made

def Session.start (total : Nat → Int) : Session := ⟨Globals.start total, []⟩

def Session.call (c : Config) (y : Session) : Call → Option Session
  | .create q cdma =>
      match slabCreate c q cdma y.globals with
      | none => none
      | some (.error _, s) => some ⟨s, y.slabs⟩
      | some (.made m, s) => some ⟨s, m :: y.slabs⟩
  | .free slab =>
      match y.slabs.find? (fun m => decide (m.handle = slab)) with
      | none => none
      | some m =>
          match slabFree slab y.globals with
          | none => none
          | some (some _, s) => some ⟨s, y.slabs⟩
          | some (none, s) => some ⟨s, y.slabs.erase m⟩

def Session.run (c : Config) (y : Session) : List Call → Option Session
  | [] => some y
  | a :: rest => (y.call c a).bind (fun y => y.run c rest)

def Session.allowed (c : Config) (y : Session) : Call → Bool
  | .create q cdma => (Action.create q).proper c && !c.loses q cdma y.globals
  | .free _ => true

def Session.allAllowed (c : Config) (y : Session) : List Call → Bool
  | [] => true
  | a :: rest => y.allowed c a && (y.call c a).all (fun y => y.allAllowed c rest)

def Alone (c : Config) (total : Nat → Int) (s : Globals) : Prop :=
  Local c total (fun _ => 0) (fun _ => False) (fun _ => 0) .idle s

structure Adds (s t : Globals) (m : Made) : Prop where
  handle : m.handle = handleOf m.cluster m.poolId
  before : (s.vpool m.place).live = false
  after : (t.vpool m.place).live = true
  rest : ∀ p, p ≠ m.place → t.vpool p = s.vpool p
  unlocked : t.locked = s.locked

section Create

variable {c : Config} {total : Nat → Int} {s : Globals} {q : Request} {index : Nat}

theorem giveBackTaken (tiny : q.committedBuffs < 2 ^ 31) :
    giveBack q index (s.add index (-q.committedBuffs)) = s := by
  unfold giveBack
  rw [int32Small tiny, addAdd, Int.add_comm, Int.add_right_neg, addZero]

theorem addsUpdate {t : Globals} {v : VPool} {m : Made}
    (handle : m.handle = handleOf m.cluster m.poolId) (before : (s.vpool m.place).live = false)
    (live : v.live = true) (records : t.vpool = Function.update s.vpool m.place v)
    (unlocked : t.locked = s.locked) : Adds s t m := by
  refine ⟨handle, before, ?_, ?_, unlocked⟩
  · rw [records, Function.update_self]
    exact live
  · intro p other
    rw [records, Function.update_of_ne other]

variable (narrow : c.numClusters < 2 ^ 8) (small : ∀ i, total i < 2 ^ 31) (cdma : Bool)
include narrow small

theorem ddrCreateCases (stacked : Local c total (fun _ => 0) (fun _ => False) (fun _ => 0)
      (.stacking q index) s) :
    (c.stalls cdma s = false ∧ (ddrSection c q index cdma s = (.full, giveBack q index s) ∨
      ∃ cluster id t, ddrSection c q index cdma s = (.made cluster id, t) ∧
        Adds s t ⟨handleOf cluster id, cluster, id⟩ ∧ Alone c total t)) ∨
    (c.stalls cdma s = true ∧ ddrSection c q index cdma s = (.refused, (giveBack q index s).jam)) := by
  obtain ⟨_, books⟩ := localQuiet ⟨rfl, fun _ => rfl⟩ stacked
  have after := stackingLocal narrow (fun _ => le_refl 0) small stacked cdma
  by_cases full : s.pointer = c.last
  · refine .inl ⟨?_, .inl (if_pos full)⟩
    unfold Config.stalls
    rw [decide_eq_false (not_not_intro full), Bool.false_and, Bool.false_and]
  · have room : s.pointer < c.last := lt_of_le_of_ne books.within full
    have bounded : ∀ i, s.remaining i < 2 ^ 31 := fun i => (remainingLe books i).trans_lt (small i)
    obtain ⟨cluster, id, valid, word, idle, _, _⟩ := booksPop books room
    obtain ⟨⟨first, top⟩, below⟩ := ddrIn.mp valid
    unfold slabMaxNumVpDdr at below
    have decoded : slabClusterIdGet (slabVpPoolGet (s.stack s.pointer)) = cluster := by
      rw [word]
      exact (decodeIdWord (by omega) (by omega)).1
    have place : Made.place ⟨handleOf cluster id, cluster, id⟩ = .ddr cluster id :=
      if_neg (Nat.ne_of_gt first)
    have made : ∀ s', s'.vpool = s.vpool → s'.locked = s.locked →
        Adds s (makeDdr q index cluster id s') ⟨handleOf cluster id, cluster, id⟩ := by
      intro s' same unlocked
      refine @addsUpdate s _ (q.fresh (int32 q.maxBuffs) index) _ rfl (place ▸ idle) rfl ?_ unlocked
      rw [place]
      unfold makeDdr Globals.set
      dsimp only
      rw [same]
    have stalls : c.stalls cdma s = ((s.contextAddress cluster).isNone &&
        (!cdma || (slabFindAndReserveBpid c c.managementNeed s).1.isNone)) := by
      unfold Config.stalls
      rw [decoded, decide_eq_true full, Bool.true_and]
    rcases @ddrSectionCases c s q index narrow bounded cluster id room valid word cdma with
      ⟨j, context, answer⟩ | ⟨context, why, answer⟩ | ⟨context, granted, j, found, _, answer⟩
    · refine .inl ⟨?_, .inr ⟨cluster, id, _, answer, made _ rfl rfl, ?_⟩⟩
      · rw [stalls, context]
        rfl
      · rwa [answer] at after
    · refine .inr ⟨?_, answer⟩
      rw [stalls, context]
      rcases why with nothing | failed
      · rw [nothing]
        simp
      · rw [failed]
        rfl
    · refine .inl ⟨?_, .inr ⟨cluster, id, _, answer, made _ rfl rfl, ?_⟩⟩
      · rw [stalls, granted, found]
        simp
      · rwa [answer] at after

theorem createCases (alone : Alone c total s) (unlocked : s.locked = false)
    (proper : (Action.create q).proper c = true) :
    (c.loses q cdma s = false ∧ ((∃ e, slabCreate c q cdma s = some (.error e, s)) ∨
      ∃ m t, slabCreate c q cdma s = some (.made m, t) ∧ Adds s t m ∧ Alone c total t)) ∨
    (c.loses q cdma s = true ∧ ∃ e, slabCreate c q cdma s = some (.error e, s.jam)) := by
  obtain ⟨counted, books⟩ := localIdle alone
  have bounded : ∀ i, s.remaining i < 2 ^ 31 := fun i => (remainingLe books i).trans_lt (small i)
  unfold slabCreate Config.loses
  cases rejected : c.rejects q with
  | some e => exact .inl ⟨rfl, .inl ⟨e, rfl⟩⟩
  | none =>
    have fits := rejectsFits proper rejected
    rcases findAndReserveEq bounded q.need with nothing | ⟨j, inside, found, enough⟩
    · rw [nothing]
      exact .inl ⟨rfl, .inl ⟨.enomem, rfl⟩⟩
    · have found : slabFindAndReserveBpid c q.need s = (some j, s.add j (-q.committedBuffs)) := found
      have enough : (q.committedBuffs : Int) ≤ s.remaining j := enough
      rw [found]
      have tiny : q.committedBuffs < 2 ^ 31 := by
        have := bounded j
        omega
      have placing : Local c total (fun _ => 0) (fun _ => False) (fun _ => 0) (.placing q j)
          (s.add j (-q.committedBuffs)) :=
        quietLocal ⟨rfl, fun _ => rfl⟩ ⟨fits, tiny⟩ counted (takeBooks books enough)
      have placed := placingLocal placing
      have back : giveBack q j (s.add j (-q.committedBuffs)) = s := giveBackTaken tiny
      rcases takeShramBooks (localQuiet ⟨rfl, fun _ => rfl⟩ placing).2 fits.1 fits.2 with
        none | ⟨id, bound, n, answer, _, _, inShram, _, idle, _⟩
      · simp only [none]
        cases inDdr : q.inDdr with
        | false => exact .inl ⟨rfl, .inl ⟨.enomem, congrArg (fun s => some (Answer.error .enomem, s)) back⟩⟩
        | true =>
          have open_ : (s.add j (-q.committedBuffs)).locked = false := unlocked
          have stacked : Local c total (fun _ => 0) (fun _ => False) (fun _ => 0) (.stacking q j)
              (s.add j (-q.committedBuffs)) := by
            rw [none] at placed
            simpa only [afterPlacing, inDdr, if_true] using placed
          simp only [open_, Bool.true_eq_false, Bool.false_eq_true, if_false, Bool.true_and]
          rcases ddrCreateCases narrow small cdma stacked with
            ⟨fine, full | ⟨cluster, id, t, made, adds, after⟩⟩ | ⟨stalls, refused⟩
          · rw [full, back]
            exact .inl ⟨fine, .inl ⟨.enomem, rfl⟩⟩
          · rw [made]
            exact .inl ⟨fine, .inr ⟨_, t, rfl,
              ⟨adds.handle, adds.before, adds.after, adds.rest, adds.unlocked⟩, after⟩⟩
          · rw [refused, back]
            exact .inr ⟨stalls, .enomem, rfl⟩
      · rw [answer] at placed
        simp only [answer, inShram, Bool.false_and]
        refine .inl ⟨trivial, .inr ⟨_, _, rfl, ?_, fillingLocal narrow (fun _ => le_refl 0) placed⟩⟩
        refine @addsUpdate s _ (q.fresh bound j) _ ?_ idle rfl ?_ rfl
        · unfold handleOf
          rw [show slabClusterIdSet 0 = 0 from by decide, Nat.zero_or]
        · show Function.update (Function.update s.vpool (.shram id) _) (.shram id)
            (q.fresh (Function.update s.vpool (.shram id) _ (.shram id)).maxBufs j) =
              Function.update s.vpool (.shram id) (q.fresh bound j)
          rw [Function.update_self, Function.update_idem]

end Create

structure Session.Ok (c : Config) (total : Nat → Int) (y : Session) : Prop where
  alone : Alone c total y.globals
  unlocked : y.globals.locked = false
  slabs : ∀ m ∈ y.slabs, m.handle = handleOf m.cluster m.poolId ∧
    (y.globals.vpool m.place).live = true
  distinct : (y.slabs.map Made.place).Nodup

section Sessions

variable {c : Config} {total : Nat → Int} {y y' : Session} (narrow : c.numClusters < 2 ^ 8)
include narrow

theorem Session.Ok.decodes (ok : y.Ok c total) {m : Made} (mem : m ∈ y.slabs) :
    slabClusterIdGet (slabVpPoolGet m.handle) = m.cluster ∧
      slabPoolIdGet (slabVpPoolGet m.handle) = m.poolId := by
  obtain ⟨handle, live⟩ := ok.slabs m mem
  have inside := ((localIdle ok.alone).2.live _ live).1
  have range : m.cluster < 2 ^ 8 ∧ m.poolId < 2 ^ 15 := by
    unfold Made.place at inside
    split at inside
    · have := shramIn.mp inside
      unfold slabMaxNumVpShram at this
      omega
    · have := ddrIn.mp inside
      unfold slabMaxNumVpDdr at this
      omega
  rw [handle]
  exact decodeHandle range.1 range.2

theorem Session.Ok.placeOf_eq (ok : y.Ok c total) {m : Made} (mem : m ∈ y.slabs) :
    placeOf m.handle = m.place := by
  obtain ⟨cluster, poolId⟩ := ok.decodes narrow mem
  unfold placeOf Made.place
  dsimp only
  rw [cluster, poolId]

theorem Session.Ok.handles (ok : y.Ok c total) : (y.slabs.map Made.handle).Nodup := by
  refine List.Nodup.map_on ?_ (List.Nodup.of_map _ ok.distinct)
  intro m memM n memN same
  obtain ⟨clusterM, poolM⟩ := ok.decodes narrow memM
  obtain ⟨clusterN, poolN⟩ := ok.decodes narrow memN
  rw [same] at clusterM poolM
  cases m
  cases n
  simp only at clusterM poolM clusterN poolN same
  rw [same, ← clusterM, ← poolM, ← clusterN, ← poolN]

omit narrow in
theorem handleIsHwPool (cluster poolId : Nat) : slabIsHwPool (handleOf cluster poolId) = true := by
  unfold slabIsHwPool handleOf slabHwPoolCreate
  rw [Nat.and_one_is_mod]
  simp

theorem freeCases (ok : y.Ok c total) {m : Made} (mem : m ∈ y.slabs) :
    slabFree m.handle y.globals = some (some .eacces, y.globals) ∨
    ∃ t, slabFree m.handle y.globals = some (none, t) ∧ Alone c total t ∧ t.locked = false ∧
      ∀ p, p ≠ m.place → t.vpool p = y.globals.vpool p := by
  obtain ⟨handle, live⟩ := ok.slabs m mem
  have freed := freeLocal narrow (fun _ => le_refl 0) (fun _ => le_refl 0) ok.alone live
  unfold slabFree
  rw [ok.placeOf_eq narrow mem, handle, handleIsHwPool, if_neg (by decide)]
  by_cases unused : (y.globals.vpool m.place).allocatedBufs = 0
  · refine .inr ?_
    cases place : m.place with
    | shram id =>
      rw [place] at unused freed
      have answer : (freeShram id y.globals).1 = none := by
        unfold freeShram
        dsimp only
        rw [if_neg (not_not_intro unused)]
      refine ⟨(freeShram id y.globals).2, congrArg some (Prod.ext answer rfl), freed, ?_, ?_⟩
      · unfold freeShram
        dsimp only
        rw [if_neg (not_not_intro unused)]
        exact ok.unlocked
      · intro p other
        unfold freeShram
        dsimp only
        rw [if_neg (not_not_intro unused)]
        exact Function.update_of_ne other ..
    | ddr cluster id =>
      rw [place] at unused freed
      have answer : freeDdrMark cluster id y.globals = (none, y.globals.set (.ddr cluster id)
          { y.globals.vpool (.ddr cluster id) with maxBufs := 0, live := false }) := by
        unfold freeDdrMark
        dsimp only
        rw [if_neg (not_not_intro unused)]
      unfold beginFree at freed
      dsimp only at freed ⊢
      rw [answer] at freed ⊢
      have open_ : (y.globals.set (.ddr cluster id) { y.globals.vpool (.ddr cluster id) with
        maxBufs := 0, live := false }).locked = false := ok.unlocked
      simp only [open_, Bool.false_eq_true, if_false]
      refine ⟨_, rfl, freeingLocal narrow (fun _ => le_refl 0) freed, ok.unlocked, ?_⟩
      intro p other
      exact Function.update_of_ne other ..
  · refine .inl ?_
    cases place : m.place with
    | shram id =>
      rw [place] at unused
      exact congrArg some (if_pos unused)
    | ddr cluster id =>
      rw [place] at unused
      have answer : freeDdrMark cluster id y.globals = (some .eacces, y.globals) := if_pos unused
      simp only [answer]

theorem startSessionOk (filled : ∀ i, 0 ≤ total i) : (Session.start total).Ok c total := by
  refine ⟨idleLocal ?_ (startBooks narrow filled), rfl, ?_, List.nodup_nil⟩
  · intro p
    rfl
  · intro m mem
    cases mem

variable (small : ∀ i, total i < 2 ^ 31)
include small

theorem callOk (ok : y.Ok c total) {a : Call} (allowed : y.allowed c a = true)
    (called : y.call c a = some y') : y'.Ok c total := by
  cases a with
  | create q cdma =>
    simp only [Session.allowed, Bool.and_eq_true, Bool.not_eq_true'] at allowed
    rcases createCases narrow small cdma ok.alone ok.unlocked allowed.1 with
      ⟨_, ⟨e, answer⟩ | ⟨m, t, answer, adds, after⟩⟩ | ⟨loses, _⟩
    · simp only [Session.call, answer] at called
      cases called
      exact ok
    · simp only [Session.call, answer] at called
      cases called
      have fresh : ∀ n ∈ y.slabs, n.place ≠ m.place := by
        intro n mem same
        have live := (ok.slabs n mem).2
        rw [same, adds.before] at live
        cases live
      refine ⟨after, adds.unlocked.trans ok.unlocked, ?_, ?_⟩
      · intro n mem
        rcases List.mem_cons.mp mem with rfl | old
        · exact ⟨adds.handle, adds.after⟩
        · rw [adds.rest _ (fresh n old)]
          exact ok.slabs n old
      · refine List.nodup_cons.mpr ⟨?_, ok.distinct⟩
        intro mem
        obtain ⟨n, old, same⟩ := List.mem_map.mp mem
        exact fresh n old same
    · rw [allowed.2] at loses
      cases loses
  | free slab =>
    cases found : y.slabs.find? (fun m => decide (m.handle = slab)) with
    | none =>
      simp only [Session.call, found] at called
      cases called
    | some m =>
      have mem := List.mem_of_find?_eq_some found
      have same : m.handle = slab := by simpa using List.find?_some found
      simp only [Session.call, found] at called
      rcases freeCases narrow ok mem with answer | ⟨t, answer, after, unlocked, rest⟩
      · rw [same] at answer
        simp only [answer] at called
        cases called
        exact ok
      · rw [same] at answer
        simp only [answer] at called
        cases called
        have others : ∀ n ∈ y.slabs.erase m, n ∈ y.slabs ∧ n.place ≠ m.place := by
          intro n old
          have nodup := List.Nodup.of_map _ ok.distinct
          obtain ⟨other, memN⟩ := (List.Nodup.mem_erase_iff nodup).mp old
          refine ⟨memN, ?_⟩
          intro samePlace
          exact other (List.inj_on_of_nodup_map ok.distinct memN mem samePlace)
        refine ⟨after, unlocked, ?_, ?_⟩
        · intro n old
          obtain ⟨memN, other⟩ := others n old
          rw [rest _ other]
          exact ok.slabs n memN
        · exact ok.distinct.sublist (List.erase_sublist.map _)

theorem sessionOk {calls : List Call} (ok : y.Ok c total) (allowed : y.allAllowed c calls = true)
    (ran : y.run c calls = some y') : y'.Ok c total := by
  induction calls generalizing y with
  | nil =>
    cases ran
    exact ok
  | cons a later ih =>
    simp only [Session.run, Option.bind_eq_some_iff] at ran
    obtain ⟨between, first, rest⟩ := ran
    simp only [Session.allAllowed, Bool.and_eq_true] at allowed
    rw [first] at allowed
    exact ih (callOk narrow small ok allowed.1 first) allowed.2 rest

def Globals.SameBooks (s t : Globals) : Prop :=
  t.remaining = s.remaining ∧ t.shramCount = s.shramCount ∧ t.pointer = s.pointer ∧
    t.stack = s.stack ∧ t.locked = s.locked

theorem handlesSound (filled : ∀ i, 0 ≤ total i) {calls : List Call}
    (allowed : (Session.start total).allAllowed c calls = true)
    (ran : (Session.start total).run c calls = some y) :
    (y.slabs.map Made.handle).Nodup ∧
    (∀ m ∈ y.slabs, slabClusterIdGet (slabVpPoolGet m.handle) = m.cluster ∧
      slabPoolIdGet (slabVpPoolGet m.handle) = m.poolId) ∧
    ∀ q cdma, (Action.create q).proper c = true →
      ((∀ e t, slabCreate c q cdma y.globals = some (.error e, t) → y.globals.SameBooks t) ↔
        y.allowed c (.create q cdma) = true) := by
  have ok := sessionOk narrow small (startSessionOk narrow filled) allowed ran
  refine ⟨ok.handles narrow, fun m mem => ok.decodes narrow mem, ?_⟩
  intro q cdma proper
  rcases createCases narrow small cdma ok.alone ok.unlocked proper with
    ⟨fine, ⟨e, answer⟩ | ⟨m, t, answer, _, _⟩⟩ | ⟨loses, e, answer⟩
  · refine ⟨fun _ => by simp [Session.allowed, proper, fine], fun _ e' t same => ?_⟩
    rw [answer] at same
    cases same
    exact ⟨rfl, rfl, rfl, rfl, rfl⟩
  · refine ⟨fun _ => by simp [Session.allowed, proper, fine], fun _ e' t same => ?_⟩
    rw [answer] at same
    cases same
  · constructor
    · intro unchanged
      obtain ⟨_, _, _, _, locked⟩ := unchanged e _ answer
      rw [ok.unlocked] at locked
      cases locked
    · intro fine
      simp [Session.allowed, loses] at fine

end Sessions

section Examples

def smallCalls : List Call :=
  [.create (smallRequest 1) true, .create (smallRequest 0) true, .create (smallRequest 1) true,
    .free 0x10001]

theorem handlesSoundSmall : ∃ y, (Session.start smallTotal).run smallConfig smallCalls = some y ∧
    (y.slabs.map Made.handle).Nodup ∧ y.slabs.map Made.handle = [0x10003, 1] := by
  obtain ⟨y, ran⟩ := Option.isSome_iff_exists.mp (by decide +kernel :
    ((Session.start smallTotal).run smallConfig smallCalls).isSome = true)
  have handles : ((Session.start smallTotal).run smallConfig smallCalls).map
      (fun y => y.slabs.map Made.handle) = some [0x10003, 1] := by decide +kernel
  rw [ran] at handles
  refine ⟨y, ran, (handlesSound (by decide) (fun _ => ?_) (fun _ => ?_) (by decide +kernel) ran).1,
    Option.some.inj handles⟩
  · exact (by decide : (10 : Int) < 2 ^ 31)
  · exact (by decide : (0 : Int) ≤ 10)

theorem createKeepsMutex :
    (slabCreate smallConfig (smallRequest 1) false (Globals.start smallTotal)).map
      (fun r => (r.1, r.2.locked)) = some (.error .enomem, true) ∧
    (Globals.start smallTotal).locked = false := by
  decide

end Examples

end Flexbuild.Slab
