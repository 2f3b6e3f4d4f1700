import Flexbuild.Cores
import Flexbuild.SlabSections

/-! Any number of cores in `slab_create`, `slab_free`, `slab_acquire` and `slab_release`, one
locked section at a time and in any order. What remains of a hardware pool, what its live
pools take, the management buffers and what calls under way have set aside add up to its
total, as long as the undo of a failed acquire meets the counters its reservation met. -/
namespace Flexbuild.Slab
open Words Ledgers Cores

inductive Pc where
  | idle
  | reserving (q : Request) (i : Nat) (found : Option Nat)
  | placing (q : Request) (index : Nat)
  | filling (q : Request) (index id : Nat)
  | givingBack (q : Request) (index : Nat)
  | stacking (q : Request) (index : Nat)
  | freeing (cluster id : Nat) (v : VPool)
  | acquiring (p : Place) (area : Area)
  deriving DecidableEq, Repr

-- A call by an idle core, or the next section of the call it is in; `cdma` is the answer of
-- the accelerator if the section asks it for a buffer.
inductive Action where
  | create (q : Request)
  | free (slab : Nat)
  | acquire (slab : Nat)
  | release (slab : Nat)
  | next (cdma : Bool)
  deriving DecidableEq, Repr

def Globals.Live (s : Globals) (slab : Nat) : Prop :=
  slabIsHwPool slab = true ∧ (s.vpool (placeOf slab)).live = true

instance (s : Globals) (slab : Nat) : Decidable (s.Live slab) :=
  inferInstanceAs (Decidable (_ ∧ _))

def beginCreate (c : Config) (q : Request) (s : Globals) : Pc × Globals :=
  match c.rejects q with
  | some _ => (.idle, s)
  | none => (.reserving q 0 none, s)

def beginFree (p : Place) (s : Globals) : Pc × Globals :=
  match p with
  | .shram id => (.idle, (freeShram id s).2)
  | .ddr cluster id =>
      match freeDdrMark cluster id s with
      | (some _, s) => (.idle, s)
      | (none, marked) => (.freeing cluster id (s.vpool p), marked)

def beginAcquire (p : Place) (s : Globals) : Pc × Globals :=
  match acquireReserve p s with
  | (none, s) => (.idle, s)
  | (some area, s) => (.acquiring p area, s)

def afterReserving (c : Config) (q : Request) (i : Nat) (found : Option Nat) (s : Globals) :
    Pc × Globals :=
  if i < c.hwPools.length then
    (.reserving q (i + 1) (reserveAt c q.need (found, s) i).1, (reserveAt c q.need (found, s) i).2)
  else
    match found with
    | none => (.idle, s)
    | some index => (.placing q index, s)

def afterPlacing (q : Request) (index : Nat) : Option Nat × Globals → Pc × Globals
  | (some id, s) => (.filling q index id, s)
  | (none, s) => if q.inDdr then (.stacking q index, s) else (.givingBack q index, s)

def next (c : Config) (s : Globals) : Pc → Action → Option (Pc × Globals)
  | .idle, .create q => some (beginCreate c q s)
  | .idle, .free slab => if s.Live slab then some (beginFree (placeOf slab) s) else none
  | .idle, .acquire slab => if s.Live slab then some (beginAcquire (placeOf slab) s) else none
  | .idle, .release slab =>
      if s.Live slab ∧ 0 < (s.vpool (placeOf slab)).held then
        some (.idle, slabRelease (placeOf slab) s)
      else none
  | .reserving q i found, .next _ => some (afterReserving c q i found s)
  | .placing q index, .next _ => some (afterPlacing q index (takeShram q s))
  | .filling q index id, .next _ => some (.idle, fillShram q index id s)
  | .givingBack q index, .next _ => some (.idle, giveBack q index s)
  | .stacking q index, .next cdma =>
      if s.locked then none else some (.idle, (ddrSection c q index cdma s).2)
  | .freeing cluster id v, .next _ =>
      if s.locked then none else some (.idle, freeDdrPush cluster id v s)
  | .acquiring p area, .next cdma =>
      some (.idle, if cdma then acquireDone p s else acquireUndo p area s)
  | _, _ => none

structure System (κ : Type) where
  globals : Globals
  pc : κ → Pc

section Runs

variable {κ : Type} [DecidableEq κ]

def System.start (total : Nat → Int) : System κ := ⟨Globals.start total, fun _ => .idle⟩

def System.step (c : Config) (y : System κ) (k : κ) (a : Action) : Option (System κ) :=
  (next c y.globals (y.pc k) a).map (fun r => ⟨r.2, Function.update y.pc k r.1⟩)

def System.run (c : Config) (y : System κ) : List (κ × Action) → Option (System κ)
  | [] => some y
  | (k, a) :: rest => (y.step c k a).bind (fun y => y.run c rest)

-- A request of the C type, for at least one buffer where the code does not check that.
def Action.proper (c : Config) : Action → Bool
  | .create q => decide (q.maxBuffs < 2 ^ 32 ∧ (c.debug = true ∨ q.maxBuffs ≠ 0))
  | _ => true

def prompt (s : Globals) : Pc → Action → Bool
  | .acquiring p area, .next false =>
      decide (area = .remaining ↔ (s.vpool p).committedBufs < (s.vpool p).allocatedBufs)
  | _, _ => true

def System.prompt (c : Config) (y : System κ) : List (κ × Action) → Bool
  | [] => true
  | (k, a) :: rest =>
      Slab.prompt y.globals (y.pc k) a && (y.step c k a).all (fun y => y.prompt c rest)

end Runs

def Pc.reserved (i : Nat) : Pc → Int
  | .reserving q _ found => setAside found q.committedBuffs i
  | .placing q index | .filling q index _ | .givingBack q index | .stacking q index =>
      setAside (some index) q.committedBuffs i
  | .freeing _ _ v => v.refund i
  | .idle | .acquiring _ _ => 0

def Pc.owns : Pc → Option Place
  | .filling _ _ id => some (.shram id)
  | .freeing cluster id _ => some (.ddr cluster id)
  | _ => none

def Pc.pending (p : Place) : Pc → Int
  | .acquiring p' _ => if p' = p then 1 else 0
  | _ => 0

def Request.Fits (q : Request) : Prop := q.maxBuffs ≠ 0 ∧ q.maxBuffs < 2 ^ 32

def Pc.Fits : Pc → Prop
  | .reserving q _ found => q.Fits ∧ (found = none ∨ q.committedBuffs < 2 ^ 31)
  | .placing q _ | .filling q _ _ | .givingBack q _ | .stacking q _ =>
      q.Fits ∧ q.committedBuffs < 2 ^ 31
  | .freeing _ _ v => 0 ≤ v.committedBufs
  | .idle | .acquiring _ _ => True

def Counted (s : Globals) (pending : Place → Int) : Prop :=
  ∀ p, if (s.vpool p).live = true then (s.vpool p).allocatedBufs = (s.vpool p).held + pending p
    else pending p = 0

structure Local (c : Config) (total rest : Nat → Int) (others : Place → Prop) (pend : Place → Int)
    (pc : Pc) (s : Globals) : Prop where
  books : Books c total s (fun i => rest i + pc.reserved i) (fun p => others p ∨ pc.owns = some p)
  fits : pc.Fits
  alone : ∀ p, pc.owns = some p → ¬ others p
  counted : Counted s (fun p => pend p + pc.pending p)

section Counts

variable {s : Globals} {pend pend' : Place → Int}

theorem countedSet (counted : Counted s pend) {p : Place} {v : VPool}
    (others : ∀ r, r ≠ p → pend' r = pend r)
    (live : v.live = true → v.allocatedBufs = v.held + pend' p)
    (idle : v.live = false → pend' p = 0) : Counted (s.set p v) pend' := by
  intro r
  by_cases same : r = p
  · subst same
    have self : (s.set r v).vpool r = v := Function.update_self ..
    rw [self]
    split
    · rename_i isLive
      exact live isLive
    · rename_i notLive
      exact idle (by simpa using notLive)
  · have rest : (s.set p v).vpool r = s.vpool r := Function.update_of_ne same ..
    rw [rest, others r same]
    exact counted r

theorem countedLive (counted : Counted s pend) {p : Place} (live : (s.vpool p).live = true) :
    (s.vpool p).allocatedBufs = (s.vpool p).held + pend p := by
  have := counted p
  rwa [if_pos live] at this

theorem countedIdle (counted : Counted s pend) {p : Place} (idle : (s.vpool p).live = false) :
    pend p = 0 := by
  have := counted p
  rwa [if_neg (by rw [idle]; exact Bool.false_ne_true)] at this

end Counts

section Steps

variable {c : Config} {total rest : Nat → Int} {others : Place → Prop} {pend : Place → Int}
  {s : Globals} {q : Request} {index : Nat}

def Pc.Quiet (pc : Pc) : Prop := pc.owns = none ∧ ∀ p, pc.pending p = 0

theorem quietLocal {pc : Pc} (quiet : pc.Quiet) (fits : pc.Fits) (counted : Counted s pend)
    (books : Books c total s (fun i => rest i + pc.reserved i) others) :
    Local c total rest others pend pc s := by
  obtain ⟨nothing, zero⟩ := quiet
  refine ⟨booksMono books ?_, fits, ?_, ?_⟩
  · rintro p (busy | own)
    · exact busy
    · rw [nothing] at own
      cases own
  · intro p own
    rw [nothing] at own
    cases own
  · intro p
    dsimp only
    rw [zero p, Int.add_zero]
    exact counted p

theorem localQuiet {pc : Pc} (quiet : pc.Quiet) (here : Local c total rest others pend pc s) :
    Counted s pend ∧ Books c total s (fun i => rest i + pc.reserved i) others := by
  refine ⟨?_, booksMono here.books (fun _ busy => .inl busy)⟩
  intro p
  have := here.counted p
  dsimp only at this
  rwa [quiet.2 p, Int.add_zero] at this

theorem booksUnowned {pc : Pc} (nothing : pc.owns = none) (zero : ∀ i, pc.reserved i = 0) :
    Books c total s (fun i => rest i + pc.reserved i) (fun p => others p ∨ pc.owns = some p) ↔
      Books c total s rest others := by
  have same : (fun i => rest i + pc.reserved i) = rest := by
    funext i
    rw [zero i, Int.add_zero]
  rw [same]
  refine ⟨fun books => booksMono books (fun _ busy => .inl busy), fun books => booksMono books ?_⟩
  rintro p (busy | own)
  · exact busy
  · rw [nothing] at own
    cases own

variable {area : Area}

theorem acquiringLocal {p : Place} (counted : Counted s (fun r => pend r + Pc.pending r (.acquiring p area)))
    (books : Books c total s rest others) :
    Local c total rest others pend (.acquiring p area) s :=
  ⟨(booksUnowned rfl (fun _ => rfl)).mpr books, trivial, (fun _ own => by cases own), counted⟩

theorem idleQuiet : Pc.Quiet .idle := ⟨rfl, fun _ => rfl⟩

theorem idleReserved (rest : Nat → Int) : (fun i => rest i + Pc.reserved i .idle) = rest := by
  funext i
  exact Int.add_zero _

theorem idleLocal (counted : Counted s pend) (books : Books c total s rest others) :
    Local c total rest others pend .idle s :=
  quietLocal idleQuiet trivial counted ((idleReserved rest).symm ▸ books)

theorem localIdle (here : Local c total rest others pend .idle s) :
    Counted s pend ∧ Books c total s rest others := by
  obtain ⟨counted, books⟩ := localQuiet idleQuiet here
  rw [idleReserved] at books
  exact ⟨counted, books⟩

variable (narrow : c.numClusters < 2 ^ 8) (nonneg : ∀ i, 0 ≤ rest i) (more : ∀ p, 0 ≤ pend p)

section Create

theorem rejectsFits (proper : (Action.create q).proper c = true) (accepted : c.rejects q = none) :
    q.Fits := by
  simp only [Action.proper, decide_eq_true_eq] at proper
  refine ⟨?_, proper.1⟩
  rcases proper.2 with debug | positive
  · intro zero
    unfold Config.rejects at accepted
    rw [if_neg (by rw [debug]; decide)] at accepted
    split at accepted
    · cases accepted
    · split at accepted
      · cases accepted
      · cases accepted
  · exact positive

theorem createLocal (proper : (Action.create q).proper c = true)
    (here : Local c total rest others pend .idle s) :
    Local c total rest others pend (beginCreate c q s).1 (beginCreate c q s).2 := by
  obtain ⟨counted, books⟩ := localIdle here
  unfold beginCreate
  cases answer : c.rejects q with
  | some e => exact here
  | none =>
    show Local c total rest others pend (.reserving q 0 none) s
    refine quietLocal ⟨rfl, fun _ => rfl⟩ ⟨rejectsFits proper answer, .inl rfl⟩ counted ?_
    exact (idleReserved rest).symm ▸ books

theorem reserveAtVpool (found : Option Nat) (i : Nat) :
    (reserveAt c q.need (found, s) i).2.vpool = s.vpool := by
  by_cases offers : s.Offers c q.need i
  · cases found with
    | none => rw [reserveAtFirst offers, Globals.add]
    | some j =>
      by_cases smaller : c.buffSize i < c.buffSize j
      · rw [reserveAtSmaller offers smaller, Globals.add, Globals.add]
      · rw [reserveAtLarger smaller]
  · rw [reserveAtSkip offers]

include nonneg in
theorem reservingLocal (small : ∀ i, total i < 2 ^ 31) {i : Nat} {found : Option Nat}
    (here : Local c total rest others pend (.reserving q i found) s) :
    Local c total rest others pend (afterReserving c q i found s).1
      (afterReserving c q i found s).2 := by
  obtain ⟨counted, books⟩ := localQuiet ⟨rfl, fun _ => rfl⟩ here
  obtain ⟨fits, tiny⟩ := here.fits
  unfold afterReserving
  split
  · obtain ⟨reserved, known⟩ := @reserveAtBooks c total s rest others q.need small found books nonneg i
    refine quietLocal ⟨rfl, fun _ => rfl⟩ ⟨fits, ?_⟩ ?_ reserved
    · rcases known with same | tiny'
      · rw [same]
        exact tiny
      · exact .inr tiny'
    · intro p
      rw [reserveAtVpool]
      exact counted p
  · cases found with
    | none => exact idleLocal counted ((idleReserved rest) ▸ books)
    | some index =>
      show Local c total rest others pend (.placing q index) s
      refine quietLocal ⟨rfl, fun _ => rfl⟩ ⟨fits, ?_⟩ counted books
      exact tiny.resolve_left (Option.some_ne_none index)

theorem placingLocal (here : Local c total rest others pend (.placing q index) s) :
    Local c total rest others pend (afterPlacing q index (takeShram q s)).1
      (afterPlacing q index (takeShram q s)).2 := by
  obtain ⟨counted, books⟩ := localQuiet ⟨rfl, fun _ => rfl⟩ here
  obtain ⟨fits, tiny⟩ := here.fits
  rcases takeShramBooks books fits.1 fits.2 with
    none | ⟨id, bound, n, answer, _, _, _, free, idle, claimed⟩
  · rw [none]
    cases inDdr : q.inDdr with
    | true =>
      simp only [afterPlacing, inDdr, if_true]
      exact quietLocal ⟨rfl, fun _ => rfl⟩ ⟨fits, tiny⟩ counted books
    | false =>
      simp only [afterPlacing, inDdr, Bool.false_eq_true, if_false]
      exact quietLocal ⟨rfl, fun _ => rfl⟩ ⟨fits, tiny⟩ counted books
  · rw [answer]
    refine ⟨booksMono claimed ?_, ⟨fits, tiny⟩, ?_, ?_⟩
    · rintro p (busy | own)
      · exact .inl busy
      · exact .inr (Option.some.inj own).symm
    · intro p own
      cases own
      exact free
    · refine countedSet counted (fun r _ => Int.add_zero _) (fun live => ?_) (fun _ => ?_)
      · exact absurd (idle.symm.trans live) Bool.false_ne_true
      · exact (Int.add_zero _).trans (countedIdle counted idle)

include narrow nonneg

theorem fillingLocal {id : Nat} (here : Local c total rest others pend (.filling q index id) s) :
    Local c total rest others pend .idle (fillShram q index id s) := by
  obtain ⟨fits, tiny⟩ := here.fits
  have own : others (.shram id) ∨ Pc.owns (.filling q index id) = some (.shram id) := .inr rfl
  obtain ⟨_, idle⟩ := here.books.idle _ own
  have filled := freshBooks narrow here.books nonneg tiny own
    (fun id' same => by cases same; exact here.books.used id (.inr own))
  refine idleLocal ?_ (booksMono filled ?_)
  · refine countedSet here.counted (fun r _ => (Int.add_zero _).symm) (fun _ => ?_) (fun dead => ?_)
    · have : pend (.shram id) + 0 = 0 := countedIdle here.counted idle
      simp only [Request.fresh]
      omega
    · cases dead
  · intro p busy
    refine ⟨.inl busy, ?_⟩
    rintro rfl
    exact here.alone _ rfl busy

omit narrow in
theorem givingBackLocal (here : Local c total rest others pend (.givingBack q index) s) :
    Local c total rest others pend .idle (giveBack q index s) := by
  obtain ⟨counted, books⟩ := localQuiet ⟨rfl, fun _ => rfl⟩ here
  exact idleLocal counted (giveBackBooks books nonneg here.fits.2)

theorem stackingLocal (small : ∀ i, total i < 2 ^ 31)
    (here : Local c total rest others pend (.stacking q index) s) (cdma : Bool) :
    Local c total rest others pend .idle (ddrSection c q index cdma s).2 := by
  obtain ⟨counted, books⟩ := localQuiet ⟨rfl, fun _ => rfl⟩ here
  obtain ⟨after, same | ⟨cluster, id, idle, same⟩⟩ :=
    ddrSectionBooks narrow small books nonneg here.fits.2 cdma
  · refine idleLocal ?_ after
    intro p
    rw [same]
    exact counted p
  · refine idleLocal ?_ after
    have made : Counted (s.set (.ddr cluster id) (q.fresh (int32 q.maxBuffs) index)) pend := by
      generalize int32 q.maxBuffs = bound
      refine countedSet counted (fun r _ => rfl) (fun _ => ?_) (fun dead => ?_)
      · have := countedIdle counted idle
        simp only [Request.fresh]
        omega
      · cases dead
    intro p
    rw [same]
    exact made p

end Create

section Free

variable {p : Place}

theorem countedRetire (counted : Counted s pend) (more : ∀ p, 0 ≤ pend p)
    (live : (s.vpool p).live = true) (unused : (s.vpool p).allocatedBufs = 0) :
    Counted (s.set p { s.vpool p with maxBufs := 0, live := false }) pend := by
  refine countedSet counted (fun r _ => rfl) (fun alive => ?_) (fun _ => ?_)
  · cases alive
  · have := countedLive counted live
    have := more p
    omega

include narrow nonneg more

theorem freeLocal (here : Local c total rest others pend .idle s)
    (live : (s.vpool p).live = true) :
    Local c total rest others pend (beginFree p s).1 (beginFree p s).2 := by
  obtain ⟨counted, books⟩ := localIdle here
  by_cases unused : (s.vpool p).allocatedBufs = 0
  · have marked := countedRetire counted more live unused
    have unclaimed : ¬ others p := by
      intro busy
      exact absurd ((books.idle p busy).2.symm.trans live) Bool.false_ne_true
    have low := (books.live p live).2
    cases p with
    | shram id =>
      have answer : (freeShram id s).2 = ((s.set (.shram id)
          { s.vpool (.shram id) with maxBufs := 0, live := false }).add
            (s.vpool (.shram id)).bmanArrayIndex (s.vpool (.shram id)).committedBufs).count
          (minus 16 s.shramCount 1) := by
        unfold freeShram
        dsimp only
        rw [if_neg (not_not_intro unused)]
        rfl
      unfold beginFree
      dsimp only
      rw [answer]
      have retired := retireBooks books live unused (fun _ _ busy => busy) (fun _ _ => unclaimed) narrow
      exact idleLocal marked (booksCount (refundBooks retired nonneg low) _)
    | ddr cluster id =>
      have answer : freeDdrMark cluster id s = (none, s.set (.ddr cluster id)
          { s.vpool (.ddr cluster id) with maxBufs := 0, live := false }) := by
        unfold freeDdrMark
        dsimp only
        rw [if_neg (not_not_intro unused)]
      unfold beginFree
      dsimp only
      rw [answer]
      refine ⟨retireBooks books live unused ?_ ?_ narrow, low, ?_, ?_⟩
      · rintro r other (busy | own)
        · exact busy
        · exact absurd (Option.some.inj own).symm other
      · intro _ other
        cases other
      · intro p own
        cases own
        exact unclaimed
      · intro p
        show if _ then _ = _ + (pend p + 0) else pend p + 0 = 0
        rw [Int.add_zero]
        exact marked p
  · cases p with
    | shram id =>
      have answer : freeShram id s = (some .eacces, s) := if_pos unused
      unfold beginFree
      dsimp only
      rw [answer]
      exact here
    | ddr cluster id =>
      have answer : freeDdrMark cluster id s = (some .eacces, s) := if_pos unused
      unfold beginFree
      dsimp only
      rw [answer]
      exact here

omit more in
theorem freeingLocal {cluster id : Nat} {v : VPool}
    (here : Local c total rest others pend (.freeing cluster id v) s) :
    Local c total rest others pend .idle (freeDdrPush cluster id v s) := by
  have pushed := booksPush narrow here.books (.inr rfl : _ ∨ Pc.owns _ = some (.ddr cluster id))
  refine idleLocal ?_ (booksMono (refundBooks pushed nonneg here.fits) ?_)
  · intro p
    have := here.counted p
    change if _ then _ = _ + (pend p + 0) else pend p + 0 = 0 at this
    rwa [Int.add_zero] at this
  · intro p busy
    refine ⟨.inl busy, ?_⟩
    rintro rfl
    exact here.alone _ rfl busy

end Free

section Buffers

variable {p : Place}

theorem pendingSelf (p : Place) (area : Area) : Pc.pending p (.acquiring p area) = 1 := if_pos rfl

theorem pendingOther {r : Place} (other : r ≠ p) (area : Area) : Pc.pending r (.acquiring p area) = 0 :=
  if_neg (Ne.symm other)

theorem localAcquiring (more : ∀ p, 0 ≤ pend p) (here : Local c total rest others pend (.acquiring p area) s) :
    (s.vpool p).live = true ∧ (s.vpool p).allocatedBufs = (s.vpool p).held + (pend p + 1) ∧
      Books c total s rest others := by
  have self := here.counted p
  dsimp only at self
  rw [pendingSelf] at self
  have live : (s.vpool p).live = true := by
    by_contra dead
    rw [if_neg dead] at self
    have := more p
    omega
  rw [if_pos live] at self
  exact ⟨live, self, (booksUnowned rfl (fun _ => rfl)).mp here.books⟩

theorem settledCounted (here : Local c total rest others pend (.acquiring p area) s)
    {v : VPool} (live : v.live = true) (counted : v.allocatedBufs = v.held + pend p) :
    Counted (s.set p v) pend := by
  refine countedSet here.counted (fun r other => ?_) (fun _ => counted) (fun dead => ?_)
  · rw [pendingOther other, Int.add_zero]
  · exact absurd (dead.symm.trans live) Bool.false_ne_true

include narrow

theorem acquireLocal (here : Local c total rest others pend .idle s)
    (live : (s.vpool p).live = true) :
    Local c total rest others pend (beginAcquire p s).1 (beginAcquire p s).2 := by
  obtain ⟨counted, books⟩ := localIdle here
  have after := acquireReserveBooks narrow books live
  have before := countedLive counted live
  have out : ∀ area, Counted (s.set p { s.vpool p with allocatedBufs := (s.vpool p).allocatedBufs + 1 })
      (fun r => pend r + Pc.pending r (.acquiring p area)) := by
    intro area
    refine countedSet counted (fun r other => ?_) (fun _ => ?_) (fun dead => ?_)
    · rw [pendingOther other, Int.add_zero]
    · rw [pendingSelf]
      dsimp only
      omega
    · exact absurd (dead.symm.trans live) Bool.false_ne_true
  unfold beginAcquire
  rcases acquireReserveCases p s with answer | ⟨_, answer⟩ | ⟨_, _, answer⟩
  · rw [answer]
    exact here
  · rw [answer] at after ⊢
    exact acquiringLocal (out .committed) after
  · rw [answer] at after ⊢
    exact acquiringLocal (out .remaining) after

theorem doneLocal (more : ∀ p, 0 ≤ pend p) (here : Local c total rest others pend (.acquiring p area) s) :
    Local c total rest others pend .idle (acquireDone p s) := by
  obtain ⟨live, self, books⟩ := localAcquiring more here
  refine idleLocal (settledCounted here live ?_) ?_
  · dsimp only
    omega
  · refine recountBooks narrow books live books.aside (fun i => ?_)
    split <;> omega

theorem undoLocal (more : ∀ p, 0 ≤ pend p) (here : Local c total rest others pend (.acquiring p area) s)
    (timely : prompt s (.acquiring p area) (.next false) = true) :
    Local c total rest others pend .idle (acquireUndo p area s) := by
  obtain ⟨live, self, books⟩ := localAcquiring more here
  have timely : area = .remaining ↔ (s.vpool p).committedBufs < (s.vpool p).allocatedBufs :=
    of_decide_eq_true timely
  have counted := settledCounted here (v := { s.vpool p with
    allocatedBufs := (s.vpool p).allocatedBufs - 1 }) live (by dsimp only; omega)
  cases area with
  | committed =>
    have within : ¬ (s.vpool p).committedBufs < (s.vpool p).allocatedBufs :=
      fun beyond => by cases timely.mpr beyond
    have after := returnBooks narrow books live (n := 0) (h := (s.vpool p).held) (if_neg within).symm
    rw [addZero] at after
    exact idleLocal counted after
  | remaining =>
    have beyond := timely.mp rfl
    have after := returnBooks narrow books live (n := 1) (h := (s.vpool p).held) (if_pos beyond).symm
    exact idleLocal counted after

theorem releaseLocal (here : Local c total rest others pend .idle s)
    (live : (s.vpool p).live = true) (out : 0 < (s.vpool p).held) :
    Local c total rest others pend .idle (slabRelease p s) := by
  obtain ⟨counted, books⟩ := localIdle here
  have before := countedLive counted live
  have after : Counted (s.set p { s.vpool p with
      allocatedBufs := (s.vpool p).allocatedBufs - 1, held := (s.vpool p).held - 1 }) pend := by
    refine countedSet counted (fun r _ => rfl) (fun _ => ?_) (fun dead => ?_)
    · dsimp only
      omega
    · exact absurd (dead.symm.trans live) Bool.false_ne_true
  unfold slabRelease
  dsimp only
  split
  · rename_i beyond
    exact idleLocal after (returnBooks narrow books live (n := 1) (if_pos beyond).symm)
  · rename_i within
    have back := returnBooks narrow books live (n := 0) (h := (s.vpool p).held - 1)
      (if_neg within).symm
    rw [addZero] at back
    exact idleLocal after back

end Buffers

theorem nextLocal (small : ∀ i, total i < 2 ^ 31) (narrow : c.numClusters < 2 ^ 8)
    (nonneg : ∀ i, 0 ≤ rest i) (more : ∀ p, 0 ≤ pend p) {pc : Pc} {a : Action} {r : Pc × Globals}
    (proper : a.proper c = true) (timely : prompt s pc a = true)
    (here : Local c total rest others pend pc s) (moved : next c s pc a = some r) :
    Local c total rest others pend r.1 r.2 := by
  cases pc with
  | idle =>
    cases a with
    | create q =>
      cases moved
      exact createLocal proper here
    | free slab =>
      simp only [next, Option.ite_none_right_eq_some, Option.some.injEq] at moved
      obtain ⟨live, rfl⟩ := moved
      exact freeLocal narrow nonneg more here live.2
    | acquire slab =>
      simp only [next, Option.ite_none_right_eq_some, Option.some.injEq] at moved
      obtain ⟨live, rfl⟩ := moved
      exact acquireLocal narrow here live.2
    | release slab =>
      simp only [next, Option.ite_none_right_eq_some, Option.some.injEq] at moved
      obtain ⟨⟨live, out⟩, rfl⟩ := moved
      exact releaseLocal narrow here live.2 out
    | next cdma => cases moved
  | reserving q i found =>
    cases a with
    | next cdma =>
      cases moved
      exact reservingLocal nonneg small here
    | _ => cases moved
  | placing q index =>
    cases a with
    | next cdma =>
      cases moved
      exact placingLocal here
    | _ => cases moved
  | filling q index id =>
    cases a with
    | next cdma =>
      cases moved
      exact fillingLocal narrow nonneg here
    | _ => cases moved
  | givingBack q index =>
    cases a with
    | next cdma =>
      cases moved
      exact givingBackLocal nonneg here
    | _ => cases moved
  | stacking q index =>
    cases a with
    | next cdma =>
      simp only [next, Option.ite_none_left_eq_some, Option.some.injEq] at moved
      obtain ⟨_, rfl⟩ := moved
      exact stackingLocal narrow nonneg small here cdma
    | _ => cases moved
  | freeing cluster id v =>
    cases a with
    | next cdma =>
      simp only [next, Option.ite_none_left_eq_some, Option.some.injEq] at moved
      obtain ⟨_, rfl⟩ := moved
      exact freeingLocal narrow nonneg here
    | _ => cases moved
  | acquiring p area =>
    cases a with
    | next cdma =>
      cases moved
      cases cdma with
      | true => exact doneLocal narrow more here
      | false => exact undoLocal narrow more here timely
    | _ => cases moved

end Steps

section Systems

variable {κ : Type} [Fintype κ] [DecidableEq κ] {c : Config} {total : Nat → Int} {y y' : System κ}

def System.reserved (y : System κ) (i : Nat) : Int := tally (Pc.reserved i) y.pc

def System.pending (y : System κ) (p : Place) : Int := tally (Pc.pending p) y.pc

structure Ok (c : Config) (total : Nat → Int) (y : System κ) : Prop where
  books : Books c total y.globals y.reserved (Owned Pc.owns y.pc)
  exclusive : Exclusive Pc.owns y.pc
  fits : ∀ k, (y.pc k).Fits
  counted : Counted y.globals y.pending

theorem reservedNonneg {pc : Pc} (fits : pc.Fits) (i : Nat) : 0 ≤ pc.reserved i := by
  cases pc with
  | idle => exact le_refl 0
  | acquiring p area => exact le_refl 0
  | freeing cluster id v =>
    have low : 0 ≤ v.committedBufs := fits
    show 0 ≤ v.refund i
    unfold VPool.refund
    split <;> omega
  | _ => exact setAsideNonneg _ _ _

theorem pendingNonneg (pc : Pc) (p : Place) : 0 ≤ pc.pending p := by
  cases pc with
  | acquiring r area =>
    show 0 ≤ if r = p then (1 : Int) else 0
    split <;> decide
  | _ => exact le_refl 0

theorem okLocal (ok : Ok c total y) (k : κ) :
    Local c total (fun i => tallyOthers (Pc.reserved i) y.pc k) (OwnedByOther Pc.owns y.pc k)
      (fun p => tallyOthers (Pc.pending p) y.pc k) (y.pc k) y.globals := by
  refine ⟨?_, ok.fits k, fun p own => exclusiveOther ok.exclusive own, ?_⟩
  · have same : (fun i => tallyOthers (Pc.reserved i) y.pc k + (y.pc k).reserved i) = y.reserved := by
      funext i
      exact (tallySplit _ _ k).symm
    rw [same]
    exact booksMono ok.books (fun p => ownedSplit.mpr)
  · intro p
    dsimp only
    rw [← tallySplit]
    exact ok.counted p

theorem localOk (ok : Ok c total y) {k : κ} {pc : Pc} {s : Globals}
    (there : Local c total (fun i => tallyOthers (Pc.reserved i) y.pc k)
      (OwnedByOther Pc.owns y.pc k) (fun p => tallyOthers (Pc.pending p) y.pc k) pc s) :
    Ok c total ⟨s, Function.update y.pc k pc⟩ := by
  refine ⟨?_, exclusiveMove ok.exclusive there.alone, ?_, ?_⟩
  · have same : (fun i => tallyOthers (Pc.reserved i) y.pc k + pc.reserved i) =
        System.reserved ⟨s, Function.update y.pc k pc⟩ := by
      funext i
      exact tallyMove.symm
    rw [← same]
    exact booksMono there.books (fun p => ownedMove.mp)
  · intro j
    by_cases same : j = k
    · subst same
      simpa only [Function.update_self] using there.fits
    · simpa only [Function.update_of_ne same] using ok.fits j
  · intro p
    have moved : System.pending ⟨s, Function.update y.pc k pc⟩ p =
        tallyOthers (Pc.pending p) y.pc k + pc.pending p := tallyMove
    rw [moved]
    exact there.counted p

variable (narrow : c.numClusters < 2 ^ 8)
include narrow

omit [DecidableEq κ] in
theorem startOk (filled : ∀ i, 0 ≤ total i) : Ok c total (System.start total : System κ) := by
  refine ⟨?_, ?_, fun _ => trivial, ?_⟩
  · have none : (System.start total : System κ).reserved = fun _ => 0 := by
      funext i
      exact owedZero (fun _ _ => rfl)
    rw [none]
    refine booksMono (startBooks narrow filled) ?_
    rintro p ⟨k, own⟩
    cases own
  · intro j k p own
    cases own
  · intro p
    have none : (System.start total : System κ).pending p = 0 := owedZero (fun _ _ => rfl)
    rw [none]
    rfl

theorem stepOk (small : ∀ i, total i < 2 ^ 31) (ok : Ok c total y) {k : κ} {a : Action}
    (proper : a.proper c = true) (timely : prompt y.globals (y.pc k) a = true)
    (moved : y.step c k a = some y') : Ok c total y' := by
  unfold System.step at moved
  obtain ⟨r, found, rfl⟩ := Option.map_eq_some_iff.mp moved
  refine localOk ok (nextLocal small narrow ?_ ?_ proper timely (okLocal ok k) found)
  · intro i
    exact tallyOthersNonneg (fun j => reservedNonneg (ok.fits j) i)
  · intro p
    exact tallyOthersNonneg (fun j => pendingNonneg _ p)

theorem runOk (small : ∀ i, total i < 2 ^ 31) {actions : List (κ × Action)} (ok : Ok c total y)
    (proper : ∀ step ∈ actions, step.2.proper c = true) (timely : y.prompt c actions = true)
    (ran : y.run c actions = some y') : Ok c total y' := by
  induction actions generalizing y with
  | nil =>
    cases ran
    exact ok
  | cons step later ih =>
    obtain ⟨k, a⟩ := step
    simp only [System.run, Option.bind_eq_some_iff] at ran
    obtain ⟨between, first, rest⟩ := ran
    simp only [System.prompt, Bool.and_eq_true] at timely
    rw [first] at timely
    have after := stepOk narrow small ok (proper _ List.mem_cons_self) timely.1 first
    exact ih after (fun step mem => proper step (List.mem_cons_of_mem _ mem)) timely.2 rest

def System.Settled (y : System κ) : Prop := ∀ k p area, y.pc k ≠ .acquiring p area

theorem buffersAccounted (filled : ∀ i, 0 ≤ total i ∧ total i < 2 ^ 31)
    {actions : List (κ × Action)} (proper : ∀ step ∈ actions, step.2.proper c = true)
    (timely : (System.start total).prompt c actions = true)
    (ran : (System.start total).run c actions = some y) :
    (∀ i, y.globals.remaining i =
        total i - y.globals.charged c i - y.globals.management c i - y.reserved i ∧
      0 ≤ y.globals.remaining i) ∧
    (y.Settled → ∀ p, (y.globals.vpool p).live = true →
      (y.globals.vpool p).allocatedBufs = (y.globals.vpool p).held) := by
  have ok := runOk narrow (fun i => (filled i).2) (startOk narrow (fun i => (filled i).1)) proper
    timely ran
  refine ⟨fun i => ⟨?_, ok.books.nonneg i⟩, ?_⟩
  · have := ok.books.balance i
    omega
  · intro settled p live
    have none : y.pending p = 0 := by
      refine owedZero (fun k _ => ?_)
      cases at_ : y.pc k with
      | acquiring r area => exact absurd at_ (settled k r area)
      | _ => rfl
    have := countedLive ok.counted live
    omega

end Systems

section Examples

def smallConfig : Config :=
  ⟨true, [⟨4096, 3, 8, 1⟩], 1, 1, by decide⟩

def smallTotal : Nat → Int := fun _ => 10

def smallRequest (flags : Nat) : Request := ⟨1, 3, 64, 8, 1, flags⟩

def createSmall (flags : Nat) (k : Fin 2) : List (Fin 2 × Action) :=
  [(k, .create (smallRequest flags)), (k, .next true), (k, .next true), (k, .next true),
    (k, .next true)]

local instance twoCores : NeZero 2 := ⟨by decide⟩

def fetchTwo : List (Fin 2 × Action) :=
  createSmall 0 0 ++ [(0, .acquire 1), (1, .acquire 1), (0, .next true), (1, .next false)]

theorem buffersAccountedTwoCores : ∃ y, (System.start smallTotal).run smallConfig fetchTwo = some y ∧
    y.globals.remaining 0 = 10 - y.globals.charged smallConfig 0 -
      y.globals.management smallConfig 0 - y.reserved 0 := by
  obtain ⟨y, ran⟩ := Option.isSome_iff_exists.mp (by decide +kernel :
    ((System.start smallTotal).run smallConfig fetchTwo).isSome = true)
  have filled : ∀ i, 0 ≤ smallTotal i ∧ smallTotal i < 2 ^ 31 := by
    intro _
    exact (by decide : (0 : Int) ≤ 10 ∧ (10 : Int) < 2 ^ 31)
  exact ⟨y, ran, ((buffersAccounted (by decide) filled (by decide) (by decide +kernel) ran).1 0).1⟩

def fetchTwoStale : List (Fin 2 × Action) :=
  createSmall 0 0 ++ [(0, .acquire 1), (1, .acquire 1), (1, .next true), (0, .next false)]

theorem accountsOff :
    ((System.start smallTotal).run smallConfig (createSmall 1 0)).map (fun y =>
      (y.pc 0, y.pc 1, y.globals.remaining 0, y.globals.charged smallConfig 0)) =
        some (.idle, .idle, 8, 1) ∧
    ((System.start smallTotal).run smallConfig fetchTwoStale).map (fun y =>
      (y.pc 0, y.pc 1, y.globals.remaining 0, y.globals.charged smallConfig 0)) =
        some (.idle, .idle, 8, 1) := by
  decide +kernel

end Examples

end Flexbuild.Slab
