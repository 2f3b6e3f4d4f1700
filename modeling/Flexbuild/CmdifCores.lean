import Flexbuild.CmdifServer
import Flexbuild.Cores
import Flexbuild.Marks

/-! `cmdif_srv_isr` on many cores. The table of sessions is locked only for the allocation and the
release of an entry; the check of a session id, the callbacks, the response and the other stores
stand between them, open to what the other cores do. -/
namespace Flexbuild.Cmdif
open Words Probing Cores Marks

def aiopSrvEvmAuthId : Nat := 1

def aiopSrvEvmName : List UInt8 := [69, 86, 77, 78, 71]

structure Frame where
  cmdId : Nat
  authId : Nat
  mName : List UInt8
  instId : Nat
  syncDone : Nat
  ready : Bool
  deriving DecidableEq, Repr

-- Sessions are numbered in the order of their opens. `accepted` is the session an entry held
-- when its close was accepted.
inductive Pc where
  | idle
  | finding (f : Frame)
  | opening (f : Frame) (mId : Nat)
  | opened (f : Frame) (mId dev : Nat)
  | syncing (f : Frame) (inst dev : Nat)
  | storing (f : Frame) (inst dev : Nat)
  | notifying (authId : Nat)
  | closing (authId : Nat) (accepted : Option Nat)
  | closed (authId : Nat) (accepted : Option Nat) (err : Int)
  | freeing (authId : Nat) (accepted : Option Nat)
  | commanding (cmdId authId : Nat)
  | answering (syncDone : Nat) (err : Int) (authId : Nat)
  deriving DecidableEq, Repr

structure Freed where
  accepted : Option Nat
  occupant : Option Nat
  deriving DecidableEq, Repr

structure Live where
  session : Nat
  authId : Nat
  deriving DecidableEq, Repr

structure Ledger where
  sessions : Nat
  occupant : Nat → Option Nat
  live : List Live
  freed : List Freed
  abandoned : List Nat

structure Globals where
  server : Server
  written : List (Nat × Nat)
  ledger : Ledger

inductive Action where
  | isr (f : Frame)
  | returns (given : Given)
  | draw (draws : Nat → Nat)
  | go

def Ledger.open_ (l : Ledger) (inst : Nat) : Ledger :=
  { l with sessions := l.sessions + 1
           occupant := Function.update l.occupant inst (some l.sessions)
           live := ⟨l.sessions, inst⟩ :: l.live }

def Ledger.release (l : Ledger) (authId : Nat) (accepted : Option Nat) : Ledger :=
  { l with occupant := Function.update l.occupant authId none
           live := l.live.filter (fun x => decide (some x.session ≠ accepted))
           freed := ⟨accepted, l.occupant authId⟩ :: l.freed }

def Ledger.abandon (l : Ledger) (dev : Nat) : Ledger := { l with abandoned := dev :: l.abandoned }

-- `SYNC_CMD_RESP_MAKE`
def syncCmdRespMake (err : Int) (id : Nat) : Nat :=
  0x80000000 ||| (err % 2 ^ 8).toNat <<< 16 ||| id

def syncCmdDone (s : Globals) (syncDone : Nat) (err : Int) (authId : Nat) : Globals :=
  let address :=
    if syncDone ≠ 0 ∨ authId = openAuthId then syncDone else s.server.syncDone authId
  if address = 0 then s
  else { s with written := (address, syncCmdRespMake err authId) :: s.written }

def beginIsr (s : Globals) (f : Frame) : Pc :=
  if f.cmdId = cmdIdNotifyOpen ∨ f.cmdId = cmdIdNotifyClose then
    if s.server.isValidAuthId f.authId then .notifying f.authId else .idle
  else if f.cmdId = cmdIdOpen then
    if f.authId ≠ openAuthId then .answering f.syncDone eperm f.authId else .finding f
  else if f.cmdId = cmdIdClose then
    if s.server.isValidAuthId f.authId then .closing f.authId (s.ledger.occupant f.authId)
    else .idle
  else if s.server.isValidAuthId f.authId then .commanding f.cmdId f.authId
  else .idle

-- `session_open` up to its callback.
def findModule (s : Globals) (f : Frame) : Pc :=
  match s.server.moduleIdFind f.mName with
  | .error _ => .answering f.syncDone enodev openAuthId
  | .ok mId =>
      if f.ready then .opening f mId else .answering f.syncDone enodev openAuthId

def takeEntry (s : Globals) (f : Frame) (mId dev : Nat) (draws : Nat → Nat) : Pc × Globals :=
  match s.server.instAlloc mId draws with
  | (.error _, _) =>
      (.answering f.syncDone enomem openAuthId, { s with ledger := s.ledger.abandon dev })
  | (.ok inst, server) =>
      (.syncing f inst dev, { s with server := server, ledger := s.ledger.open_ inst })

def next (s : Globals) : Pc → Action → Option (Pc × Globals)
  | .idle, .isr f => some (beginIsr s f, s)
  | .finding f, .go => some (findModule s f, s)
  | .opening f mId, .returns given =>
      let err := (s.server.openCb mId).answer given.err
      some (if err = 0 then .opened f mId given.dev
        else .answering f.syncDone err openAuthId, s)
  | .opened f mId dev, .draw draws => some (takeEntry s f mId dev draws)
  | .syncing f inst dev, .go =>
      some (.storing f inst dev, { s with server := { s.server with
        syncDone := Function.update s.server.syncDone inst f.syncDone } })
  | .storing f inst dev, .go =>
      some (.answering f.syncDone 0 inst, { s with server := { s.server with
        instDev := Function.update s.server.instDev inst dev } })
  | .notifying authId, .returns given => some (.answering 0 given.err authId, s)
  | .closing authId accepted, .returns given =>
      some (.closed authId accepted
        ((s.server.closeCb (s.server.mId authId)).answer given.err), s)
  | .closed authId accepted err, .go =>
      some (if err = 0 then .freeing authId accepted else .idle, syncCmdDone s 0 err authId)
  | .freeing authId accepted, .go =>
      some (.idle, { s with server := s.server.instDealloc authId
                            ledger := s.ledger.release authId accepted })
  | .commanding cmdId authId, .returns given =>
      let err := (s.server.ctrlCb (s.server.mId authId)).answer given.err
      some (if syncCmd cmdId then .answering 0 err authId else .idle, s)
  | .answering syncDone err authId, .go => some (.idle, syncCmdDone s syncDone err authId)
  | _, _ => none

structure System (κ : Type) where
  pc : κ → Pc
  globals : Globals

section System

variable {κ : Type} [DecidableEq κ]

def System.step (y : System κ) (k : κ) (a : Action) : Option (System κ) :=
  (next y.globals (y.pc k) a).map (fun after => ⟨Function.update y.pc k after.1, after.2⟩)

def System.run (y : System κ) : List (κ × Action) → Option (System κ)
  | [] => some y
  | (k, a) :: rest => (y.step k a).bind (fun y => y.run rest)

end System

def Pc.closes : Pc → Option (Nat × Option Nat)
  | .closing a z => some (a, z)
  | .closed a z _ => some (a, z)
  | .freeing a z => some (a, z)
  | _ => none

def Pc.closesEntry (pc : Pc) : Option Nat := pc.closes.map Prod.fst

section System

variable {κ : Type}

def System.Allowed (y : System κ) : Action → Prop
  | .isr f => f.cmdId = cmdIdClose → ∀ j, (y.pc j).closesEntry ≠ some f.authId
  | .draw _ => ∃ a < mNumOfInstances, y.globals.server.taken a = false
  | _ => True

def System.AllAllowed [DecidableEq κ] (y : System κ) : List (κ × Action) → Prop
  | [] => True
  | (k, a) :: rest => y.Allowed a ∧ ∀ z ∈ y.step k a, z.AllAllowed rest

instance [Fintype κ] (y : System κ) (a : Action) : Decidable (y.Allowed a) :=
  match a with
  | .isr f =>
      inferInstanceAs (Decidable (f.cmdId = cmdIdClose → ∀ j, (y.pc j).closesEntry ≠ some f.authId))
  | .draw _ =>
      inferInstanceAs (Decidable (∃ a < mNumOfInstances, y.globals.server.taken a = false))
  | .returns _ => inferInstanceAs (Decidable True)
  | .go => inferInstanceAs (Decidable True)

def decideAllAllowed [DecidableEq κ] [Fintype κ] :
    (y : System κ) → (steps : List (κ × Action)) → Decidable (y.AllAllowed steps)
  | _, [] => inferInstanceAs (Decidable True)
  | y, (k, a) :: rest =>
      have : DecidablePred (fun z : System κ => z.AllAllowed rest) :=
        fun z => decideAllAllowed z rest
      inferInstanceAs (Decidable (y.Allowed a ∧ ∀ z ∈ y.step k a, z.AllAllowed rest))

instance [DecidableEq κ] [Fintype κ] (y : System κ) (steps : List (κ × Action)) :
    Decidable (y.AllAllowed steps) := decideAllAllowed y steps

end System

def Server.takenCount (s : Server) : Nat := marks mNumOfInstances (fun a => s.mId a ≠ freeInstance)

structure Globals.Right (s : Globals) : Prop where
  count : s.server.instCount = s.server.takenCount
  small : ∀ x ∈ s.ledger.live, x.authId < mNumOfInstances ∧ s.server.taken x.authId = true
  apart : s.ledger.live.Pairwise (fun x y => x.authId ≠ y.authId)
  alloc : ∀ mId draws, (s.server.instAlloc mId draws).1 = .error enavail ↔
    ∀ a < mNumOfInstances, s.server.taken a = true
  freed : ∀ f ∈ s.ledger.freed, ∃ z, f = ⟨some z, some z⟩
  once : s.ledger.freed.Nodup
  abandoned : s.ledger.abandoned = []

structure Server.Unopened (s : Server) : Prop where
  mId : ∀ a, s.mId a = freeInstance
  instCount : s.instCount = 0

def Globals.start (s : Server) : Globals := ⟨s, [], ⟨0, fun _ => none, [], [], []⟩⟩

-- `cmdif_srv_mc_evm_session_open`, at boot.
def Globals.evmSessionOpen (s : Globals) (given : Given) : Globals :=
  match s.server.moduleIdFind aiopSrvEvmName with
  | .error _ => s
  | .ok mId =>
      if (s.server.openCb mId).answer given.err ≠ 0 then s
      else
        { s with
          server := { s.server with
            mId := Function.update s.server.mId aiopSrvEvmAuthId (wrap 8 mId)
            instDev := Function.update s.server.instDev aiopSrvEvmAuthId given.dev
            syncDone := Function.update s.server.syncDone aiopSrvEvmAuthId 0
            instCount := wrap 16 (s.server.instCount + 1) }
          ledger := s.ledger.open_ aiopSrvEvmAuthId }

def System.start (κ : Type) (s : Server) (evm : Option Given) : System κ :=
  ⟨fun _ => .idle, evm.elim (Globals.start s) (Globals.evmSessionOpen (Globals.start s))⟩

section Counting

variable {s t : Server} {a v : Nat}

theorem takenCountLe (s : Server) : s.takenCount ≤ mNumOfInstances := marksLe mNumOfInstances

theorem takenCountFill (lt : a < mNumOfInstances) (free : s.mId a = freeInstance)
    (marked : v ≠ freeInstance) (after : t.mId = Function.update s.mId a v) :
    t.takenCount = s.takenCount + 1 := by
  refine marksMore lt (not_not.mpr free) ?_ ?_
  · rw [after, Function.update_self]
    exact marked
  · intro b other
    rw [after, Function.update_of_ne other]

theorem takenCountFree (lt : a < mNumOfInstances) (taken : s.mId a ≠ freeInstance)
    (after : t.mId = Function.update s.mId a freeInstance) :
    t.takenCount + 1 = s.takenCount := by
  refine marksFewer lt taken ?_ ?_
  · rw [after, Function.update_self]
    exact not_not.mpr rfl
  · intro b other
    rw [after, Function.update_of_ne other]

end Counting

structure Books (s : Globals) : Prop where
  count : s.server.instCount = s.server.takenCount
  occupied : ∀ a, s.server.mId a ≠ freeInstance ↔ ∃ z, s.ledger.occupant a = some z
  small : ∀ a z, s.ledger.occupant a = some z → a < mNumOfInstances
  numbered : ∀ a z, s.ledger.occupant a = some z → z < s.ledger.sessions
  distinct : ∀ a b z, s.ledger.occupant a = some z → s.ledger.occupant b = some z → a = b
  live : ∀ x ∈ s.ledger.live, s.ledger.occupant x.authId = some x.session
  apart : s.ledger.live.Pairwise (fun x y => x.authId ≠ y.authId)
  freed : ∀ f ∈ s.ledger.freed, ∃ z, f = ⟨some z, some z⟩ ∧ z < s.ledger.sessions ∧
    ∀ a, s.ledger.occupant a ≠ some z
  once : s.ledger.freed.Nodup
  abandoned : s.ledger.abandoned = []

theorem booksRight {s : Globals} (books : Books s) : s.Right := by
  refine ⟨books.count, ?_, books.apart, fun mId draws => instAllocFails, ?_, books.once,
    books.abandoned⟩
  · intro x mem
    have here := books.live x mem
    exact ⟨books.small _ _ here, decide_eq_true ((books.occupied _).mpr ⟨_, here⟩)⟩
  · intro f mem
    obtain ⟨z, same, _⟩ := books.freed f mem
    exact ⟨z, same⟩

theorem openOccupant {l : Ledger} {a b z : Nat} :
    (l.open_ a).occupant b = some z ↔ b = a ∧ l.sessions = z ∨ b ≠ a ∧ l.occupant b = some z := by
  by_cases same : b = a
  · subst same
    simp [Ledger.open_]
  · simp [Ledger.open_, same]

theorem releaseOccupant {l : Ledger} {a b z : Nat} {accepted : Option Nat} :
    (l.release a accepted).occupant b = some z ↔ b ≠ a ∧ l.occupant b = some z := by
  by_cases same : b = a
  · subst same
    simp [Ledger.release]
  · simp [Ledger.release, same]

section Books

variable {s t : Globals} {a m : Nat}

theorem booksOpen (books : Books s) (lt : a < mNumOfInstances) (free : s.server.mId a = freeInstance)
    (slot : m < mNumOfModules) (mId : t.server.mId = Function.update s.server.mId a (wrap 8 m))
    (instCount : t.server.instCount = wrap 16 (s.server.instCount + 1))
    (ledger : t.ledger = s.ledger.open_ a) : Books t := by
  have marked : wrap 8 m ≠ freeInstance := by
    rw [wrapSmall (Nat.lt_trans slot (by decide))]
    exact Nat.ne_of_lt slot
  have vacant : ∀ z, s.ledger.occupant a ≠ some z := by
    intro z here
    exact (books.occupied a).mpr ⟨z, here⟩ free
  have fresh : ∀ b, s.ledger.occupant b ≠ some s.ledger.sessions := by
    intro b here
    exact absurd (books.numbered b _ here) (Nat.lt_irrefl _)
  refine ⟨?_, ?_, ?_, ?_, ?_, ?_, ?_, ?_, ?_, ?_⟩
  · have le := takenCountLe s.server
    rw [instCount, takenCountFill lt free marked mId, books.count]
    exact wrapSmall (Nat.lt_of_le_of_lt (Nat.succ_le_succ le) (by decide))
  · intro b
    simp only [mId, ledger, openOccupant]
    by_cases same : b = a
    · subst same
      rw [Function.update_self]
      exact ⟨fun _ => ⟨_, .inl ⟨rfl, rfl⟩⟩, fun _ => marked⟩
    · rw [Function.update_of_ne same, books.occupied b]
      simp only [same, ne_eq, not_false_eq_true, false_and, true_and, false_or]
  · intro b z here
    rw [ledger, openOccupant] at here
    rcases here with ⟨rfl, _⟩ | ⟨_, there⟩
    · exact lt
    · exact books.small b z there
  · intro b z here
    rw [ledger, openOccupant] at here
    rw [ledger]
    rcases here with ⟨_, rfl⟩ | ⟨_, there⟩
    · exact Nat.lt_succ_self _
    · exact Nat.lt_succ_of_lt (books.numbered b z there)
  · intro b c z hereB hereC
    rw [ledger, openOccupant] at hereB hereC
    rcases hereB with ⟨rfl, rfl⟩ | ⟨_, thereB⟩
    · rcases hereC with ⟨rfl, _⟩ | ⟨_, thereC⟩
      · rfl
      · exact absurd thereC (fresh c)
    · rcases hereC with ⟨_, rfl⟩ | ⟨_, thereC⟩
      · exact absurd thereB (fresh b)
      · exact books.distinct b c z thereB thereC
  · intro x mem
    rw [ledger] at mem
    rw [ledger, openOccupant]
    rcases List.mem_cons.mp mem with rfl | old
    · exact .inl ⟨rfl, rfl⟩
    · have here := books.live x old
      refine .inr ⟨?_, here⟩
      intro same
      rw [same] at here
      exact vacant _ here
  · rw [ledger]
    refine List.pairwise_cons.mpr ⟨?_, books.apart⟩
    intro x mem same
    have here := books.live x mem
    rw [← same] at here
    exact vacant _ here
  · intro f mem
    rw [ledger] at mem
    obtain ⟨z, same, lt, gone⟩ := books.freed f mem
    rw [ledger]
    refine ⟨z, same, Nat.lt_succ_of_lt lt, ?_⟩
    intro b here
    rcases openOccupant.mp here with ⟨_, rfl⟩ | ⟨_, there⟩
    · exact absurd lt (Nat.lt_irrefl _)
    · exact gone b there
  · rw [ledger]
    exact books.once
  · rw [ledger]
    exact books.abandoned

theorem booksRelease (books : Books s) {z : Nat} (here : s.ledger.occupant a = some z) :
    Books { s with server := s.server.instDealloc a
                   ledger := s.ledger.release a (some z) } := by
  have lt := books.small a z here
  have taken : s.server.mId a ≠ freeInstance := (books.occupied a).mpr ⟨z, here⟩
  refine ⟨?_, ?_, ?_, ?_, ?_, ?_, ?_, ?_, ?_, ?_⟩
  · have fewer := @takenCountFree s.server (s.server.instDealloc a) a lt taken rfl
    have le := takenCountLe s.server
    have count := books.count
    show minus 16 s.server.instCount 1 = (s.server.instDealloc a).takenCount
    have bound : s.server.instCount < 2 ^ 16 := by
      rw [count]
      exact Nat.lt_of_le_of_lt le (by decide)
    rw [minusExact (by omega) bound]
    omega
  · intro b
    simp only [releaseOccupant, Server.instDealloc]
    by_cases same : b = a
    · subst same
      rw [Function.update_self]
      exact ⟨fun ne => absurd rfl ne, fun ⟨_, other, _⟩ => absurd rfl other⟩
    · rw [Function.update_of_ne same, books.occupied b]
      simp only [same, ne_eq, not_false_eq_true, true_and]
  · intro b w there
    exact books.small b w (releaseOccupant.mp there).2
  · intro b w there
    exact books.numbered b w (releaseOccupant.mp there).2
  · intro b c w thereB thereC
    exact books.distinct b c w (releaseOccupant.mp thereB).2 (releaseOccupant.mp thereC).2
  · intro x mem
    obtain ⟨old, kept⟩ := List.mem_filter.mp mem
    have there := books.live x old
    refine releaseOccupant.mpr ⟨?_, there⟩
    intro same
    rw [same, here] at there
    exact of_decide_eq_true kept there.symm
  · exact books.apart.filter _
  · intro f mem
    rcases List.mem_cons.mp mem with rfl | old
    · refine ⟨z, by rw [here], books.numbered a z here, ?_⟩
      intro b there
      obtain ⟨other, there⟩ := releaseOccupant.mp there
      exact other (books.distinct b a z there here)
    · obtain ⟨w, same, lt, gone⟩ := books.freed f old
      refine ⟨w, same, lt, ?_⟩
      intro b there
      exact gone b (releaseOccupant.mp there).2
  · refine List.nodup_cons.mpr ⟨?_, books.once⟩
    intro mem
    obtain ⟨w, same, _, gone⟩ := books.freed _ mem
    rw [here] at same
    cases same
    exact gone a here
  · exact books.abandoned

end Books

def Pc.slot : Pc → Option Nat
  | .opening _ m => some m
  | .opened _ m _ => some m
  | _ => none

inductive Moves (busy : Nat → Prop) (s : Globals) (pc : Pc) : Pc → Globals → Prop where
  | quiet {pc' : Pc} {t : Globals} (mId : t.server.mId = s.server.mId)
      (instCount : t.server.instCount = s.server.instCount) (ledger : t.ledger = s.ledger)
      (closes : pc'.closes = none ∨ pc'.closes = pc.closes)
      (slot : ∀ m, pc'.slot = some m → m < mNumOfModules) : Moves busy s pc pc' t
  | accept {a : Nat} (valid : s.server.isValidAuthId a = true) (apart : ¬ busy a) :
      Moves busy s pc (.closing a (s.ledger.occupant a)) s
  | open_ {f : Frame} {inst m dev : Nat} {t : Globals} (lt : inst < mNumOfInstances)
      (free : s.server.mId inst = freeInstance) (slot : m < mNumOfModules)
      (mId : t.server.mId = Function.update s.server.mId inst (wrap 8 m))
      (instCount : t.server.instCount = wrap 16 (s.server.instCount + 1))
      (ledger : t.ledger = s.ledger.open_ inst) : Moves busy s pc (.syncing f inst dev) t
  | release {a : Nat} {z : Option Nat} (closes : pc.closes = some (a, z)) :
      Moves busy s pc .idle
        { s with server := s.server.instDealloc a, ledger := s.ledger.release a z }

section Moves

variable {busy : Nat → Prop} {s t : Globals} {pc pc' : Pc}

theorem doneSame (s : Globals) (syncDone : Nat) (err : Int) (authId : Nat) :
    (syncCmdDone s syncDone err authId).server = s.server ∧
      (syncCmdDone s syncDone err authId).ledger = s.ledger := by
  unfold syncCmdDone
  by_cases given : syncDone ≠ 0 ∨ authId = openAuthId
  · rw [if_pos given]
    by_cases none_ : syncDone = 0
    · rw [if_pos none_]
      exact ⟨rfl, rfl⟩
    · rw [if_neg none_]
      exact ⟨rfl, rfl⟩
  · rw [if_neg given]
    by_cases none_ : s.server.syncDone authId = 0
    · rw [if_pos none_]
      exact ⟨rfl, rfl⟩
    · rw [if_neg none_]
      exact ⟨rfl, rfl⟩

theorem doneMoves {syncDone authId : Nat} {err : Int}
    (closes : pc'.closes = none ∨ pc'.closes = pc.closes) (slot : pc'.slot = none) :
    Moves busy s pc pc' (syncCmdDone s syncDone err authId) := by
  have none_ : ∀ m, pc'.slot = some m → m < mNumOfModules := by
    rw [slot]
    nofun
  obtain ⟨server, ledger⟩ := doneSame s syncDone err authId
  exact .quiet (by rw [server]) (by rw [server]) ledger closes none_

theorem stillMoves (closes : pc'.closes = none) (slot : ∀ m, pc'.slot = some m → m < mNumOfModules) :
    Moves busy s pc pc' s := .quiet rfl rfl rfl (.inl closes) slot

theorem beginMoves {f : Frame} (apart : f.cmdId = cmdIdClose → ¬ busy f.authId) :
    Moves busy s pc (beginIsr s f) s := by
  unfold beginIsr
  split
  · split
    · exact stillMoves rfl nofun
    · exact stillMoves rfl nofun
  · split
    · split
      · exact stillMoves rfl nofun
      · exact stillMoves rfl nofun
    · split
      · rename_i close
        split
        · rename_i valid
          exact .accept valid (apart close)
        · exact stillMoves rfl nofun
      · split
        · exact stillMoves rfl nofun
        · exact stillMoves rfl nofun

theorem findMoves (f : Frame) : Moves busy s pc (findModule s f) s := by
  unfold findModule
  split
  · exact stillMoves rfl nofun
  · rename_i mId found
    split
    · refine stillMoves rfl ?_
      intro m same
      cases same
      exact (moduleIdFindSome found).1
    · exact stillMoves rfl nofun

theorem takeMoves {f : Frame} {m dev : Nat} {draws : Nat → Nat} (slot : m < mNumOfModules)
    (room : ∃ a < mNumOfInstances, s.server.taken a = false) :
    Moves busy s pc (takeEntry s f m dev draws).1 (takeEntry s f m dev draws).2 := by
  unfold takeEntry
  rcases @instAllocCases s.server m draws with full | ⟨inst, lt, free, taken⟩
  · obtain ⟨a, lt, free⟩ := room
    have all := instAllocFails.mp (congrArg Prod.fst full) a lt
    rw [free] at all
    cases all
  · rw [taken]
    exact .open_ lt free slot rfl rfl rfl

theorem nextMoves {a : Action} (slot : ∀ m, pc.slot = some m → m < mNumOfModules)
    (room : ∀ draws, a = .draw draws → ∃ a < mNumOfInstances, s.server.taken a = false)
    (apart : ∀ f, a = .isr f → f.cmdId = cmdIdClose → ¬ busy f.authId)
    (step : next s pc a = some (pc', t)) : Moves busy s pc pc' t := by
  unfold next at step
  split at step
  · cases step
    exact beginMoves (apart _ rfl)
  · cases step
    exact findMoves _
  · cases step
    split
    · exact stillMoves rfl slot
    · exact stillMoves rfl nofun
  · obtain ⟨rfl, rfl⟩ := Prod.ext_iff.mp (Option.some.inj step)
    exact takeMoves (slot _ rfl) (room _ rfl)
  · cases step
    exact .quiet rfl rfl rfl (.inl rfl) nofun
  · cases step
    exact .quiet rfl rfl rfl (.inl rfl) nofun
  · cases step
    exact stillMoves rfl nofun
  · cases step
    exact .quiet rfl rfl rfl (.inr rfl) nofun
  · cases step
    split
    · exact doneMoves (.inr rfl) rfl
    · exact doneMoves (.inl rfl) rfl
  · cases step
    exact .release rfl
  · cases step
    split
    · exact stillMoves rfl nofun
    · exact stillMoves rfl nofun
  · cases step
    exact doneMoves (.inl rfl) rfl
  · cases step

end Moves

structure PcOk (s : Globals) (pc : Pc) : Prop where
  closes : ∀ a z, pc.closes = some (a, z) → ∃ w, z = some w ∧ s.ledger.occupant a = some w
  slot : ∀ m, pc.slot = some m → m < mNumOfModules

section Run

variable {κ : Type} [DecidableEq κ]

structure Ok (y : System κ) : Prop where
  books : Books y.globals
  pcs : ∀ k, PcOk y.globals (y.pc k)
  exclusive : Exclusive Pc.closesEntry y.pc

variable {y z : System κ} {k : κ} {a : Action}

theorem closesEntrySome {pc : Pc} {a : Nat} (entry : pc.closesEntry = some a) :
    ∃ z, pc.closes = some (a, z) := by
  obtain ⟨pair, same, rfl⟩ := Option.map_eq_some_iff.mp entry
  exact ⟨pair.2, same⟩

theorem closesEntryOf {pc : Pc} {a : Nat} {z : Option Nat} (closes : pc.closes = some (a, z)) :
    pc.closesEntry = some a := by
  unfold Pc.closesEntry
  rw [closes]
  rfl

theorem okMove {pc : Pc} {t : Globals} (ok : Ok y) (books : Books t) (mine : PcOk t pc)
    (others : ∀ j a w, j ≠ k → (y.pc j).closes = some (a, some w) →
      y.globals.ledger.occupant a = some w → t.ledger.occupant a = some w)
    (apart : ∀ a, pc.closesEntry = some a → ¬ OwnedByOther Pc.closesEntry y.pc k a) :
    Ok ⟨Function.update y.pc k pc, t⟩ := by
  refine ⟨books, ?_, exclusiveMove ok.exclusive apart⟩
  intro j
  dsimp only
  by_cases same : j = k
  · rw [same, Function.update_self]
    exact mine
  · rw [Function.update_of_ne same]
    refine ⟨?_, (ok.pcs j).slot⟩
    intro a z closes
    obtain ⟨w, rfl, here⟩ := (ok.pcs j).closes a z closes
    exact ⟨w, rfl, others j a w same closes here⟩

theorem movesOk (ok : Ok y) {pc : Pc} {t : Globals}
    (moves : Moves (fun a => ∃ j, (y.pc j).closesEntry = some a) y.globals (y.pc k) pc t) :
    Ok ⟨Function.update y.pc k pc, t⟩ := by
  cases moves with
  | quiet mId instCount ledger closes slot =>
    have books : Books t := by
      obtain ⟨count, occupied, small, numbered, distinct, live, apart, freed, once, abandoned⟩ :=
        ok.books
      rw [← ledger] at occupied small numbered distinct live apart freed once abandoned
      rw [← instCount] at count
      unfold Server.takenCount at count
      rw [← mId] at count occupied
      exact ⟨count, occupied, small, numbered, distinct, live, apart, freed, once, abandoned⟩
    refine okMove ok books ⟨?_, slot⟩ ?_ ?_
    · intro a z holds
      rw [ledger]
      rcases closes with none_ | same
      · rw [none_] at holds
        cases holds
      · rw [same] at holds
        exact (ok.pcs k).closes a z holds
    · intro j a w other closing here
      rw [ledger]
      exact here
    · intro a entry
      rcases closes with none_ | same
      · obtain ⟨z, holds⟩ := closesEntrySome entry
        rw [none_] at holds
        cases holds
      · have mine : (y.pc k).closesEntry = some a := by
          unfold Pc.closesEntry at entry ⊢
          rw [← same]
          exact entry
        exact exclusiveOther ok.exclusive mine
  | @accept a valid apart =>
    refine okMove ok ok.books ⟨?_, nofun⟩ (fun j a w other closing here => here) ?_
    · intro b z holds
      cases holds
      have used := Nat.ne_of_lt (of_decide_eq_true valid).2
      obtain ⟨w, here⟩ := (ok.books.occupied a).mp used
      exact ⟨w, here, here⟩
    · intro b entry
      cases entry
      rintro ⟨j, _, also⟩
      exact apart ⟨j, also⟩
  | @open_ f inst m dev _ lt free slot mId instCount ledger =>
    refine okMove ok (booksOpen ok.books lt free slot mId instCount ledger) ⟨nofun, nofun⟩ ?_ nofun
    intro j a w other closing here
    rw [ledger, openOccupant]
    refine .inr ⟨?_, here⟩
    intro same
    rw [same] at here
    exact (ok.books.occupied inst).mpr ⟨w, here⟩ free
  | @release a z closes =>
    obtain ⟨w, rfl, here⟩ := (ok.pcs k).closes a z closes
    refine okMove ok (booksRelease ok.books here) ⟨nofun, nofun⟩ ?_ nofun
    intro j b v other closing there
    refine releaseOccupant.mpr ⟨?_, there⟩
    intro same
    rw [same] at closing
    exact other (ok.exclusive j k a (closesEntryOf closing) (closesEntryOf closes))

theorem tableStepOk (ok : Ok y) (allowed : y.Allowed a) (step : y.step k a = some z) : Ok z := by
  obtain ⟨⟨pc, t⟩, moved, rfl⟩ := Option.map_eq_some_iff.mp step
  refine movesOk ok (nextMoves (ok.pcs k).slot ?_ ?_ moved)
  · rintro draws rfl
    exact allowed
  · rintro f rfl close ⟨j, entry⟩
    exact allowed close j entry

theorem tableRunOk (ok : Ok y) {steps : List (κ × Action)} (allowed : y.AllAllowed steps)
    (done : y.run steps = some z) : Ok z := by
  induction steps generalizing y with
  | nil =>
    cases done
    exact ok
  | cons step rest ih =>
    obtain ⟨k, a⟩ := step
    obtain ⟨x, first, later⟩ := Option.bind_eq_some_iff.mp done
    exact ih (tableStepOk ok allowed.1 first) (allowed.2 x first) later

theorem unopenedBooks {s : Server} (unopened : s.Unopened) : Books (Globals.start s) := by
  refine ⟨?_, ?_, nofun, nofun, nofun, nofun, .nil, nofun, .nil, rfl⟩
  · show s.instCount = s.takenCount
    unfold Server.takenCount
    rw [unopened.instCount, marksNone (fun a _ ne => ne (unopened.mId a))]
  · intro a
    exact ⟨fun ne => absurd (unopened.mId a) ne, nofun⟩

theorem evmBooks {s : Server} (unopened : s.Unopened) (given : Given) :
    Books ((Globals.start s).evmSessionOpen given) := by
  have books := unopenedBooks unopened
  unfold Globals.evmSessionOpen
  split
  · exact books
  · rename_i m found
    split
    · exact books
    · exact booksOpen books (by decide) (unopened.mId _) (moduleIdFindSome found).1 rfl rfl rfl

omit [DecidableEq κ] in
theorem tableStartOk {s : Server} (unopened : s.Unopened) (evm : Option Given) :
    Ok (System.start κ s evm) := by
  refine ⟨?_, fun k => ⟨nofun, nofun⟩, nofun⟩
  cases evm with
  | none => exact unopenedBooks unopened
  | some given => exact evmBooks unopened given

theorem tableKept {s : Server} (unopened : s.Unopened) (evm : Option Given)
    {steps : List (κ × Action)} {t : System κ} (allowed : (System.start κ s evm).AllAllowed steps)
    (done : (System.start κ s evm).run steps = some t) : t.globals.Right :=
  booksRight (tableRunOk (tableStartOk unopened evm) allowed done).books

end Run

def Server.oneModule : Server where
  mName := fun i => if i = 0 then [65] else []
  openCb := fun _ => .own 0 1
  closeCb := fun _ => .own 0 2
  ctrlCb := fun _ => .own 0 3
  instDev := fun _ => 0
  syncDone := fun _ => 0
  mId := fun _ => freeInstance
  instCount := 0

theorem oneModuleUnopened : Server.oneModule.Unopened := ⟨fun _ => rfl, rfl⟩

def openOn (k : Fin 2) (dev : Nat) : List (Fin 2 × Action) :=
  [(k, .isr ⟨cmdIdOpen, openAuthId, [65], 0, 4096, true⟩), (k, .go), (k, .returns ⟨0, dev⟩),
    (k, .draw (fun _ => 5)), (k, .go), (k, .go), (k, .go)]

def isrClose (k : Fin 2) : Fin 2 × Action := (k, .isr ⟨cmdIdClose, 5, [], 0, 0, true⟩)

def freesEntry (k : Fin 2) : List (Fin 2 × Action) := [(k, .returns ⟨0, 0⟩), (k, .go), (k, .go)]

def tableSteps : List (Fin 2 × Action) :=
  openOn 0 77 ++ isrClose 1 :: freesEntry 1 ++ openOn 1 78

theorem tableKeptReopened :
    ∃ t, (System.start (Fin 2) .oneModule none).run tableSteps = some t ∧
      t.globals.ledger.live = [⟨1, 5⟩] ∧ t.globals.Right := by
  have outcome : ((System.start (Fin 2) .oneModule none).run tableSteps).map
      (fun t => t.globals.ledger.live) = some [⟨1, 5⟩] := by decide
  obtain ⟨t, done, live⟩ := Option.map_eq_some_iff.mp outcome
  exact ⟨t, done, live, tableKept oneModuleUnopened none (by decide +kernel) done⟩

def doubleClose : List (Fin 2 × Action) :=
  openOn 0 77 ++ isrClose 0 :: isrClose 1 :: freesEntry 0 ++ openOn 0 78 ++ freesEntry 1

theorem closeOverlapped :
    ∃ s : Server, s.Unopened ∧ ∃ steps t, (System.start (Fin 2) s none).run steps = some t ∧
      ¬ t.globals.Right := by
  have outcome : ((System.start (Fin 2) .oneModule none).run doubleClose).map
      (fun t => t.globals.ledger.freed) =
        some [⟨some 0, some 1⟩, ⟨some 0, some 0⟩] := by decide
  obtain ⟨t, done, freed⟩ := Option.map_eq_some_iff.mp outcome
  refine ⟨.oneModule, oneModuleUnopened, doubleClose, t, done, ?_⟩
  intro right
  obtain ⟨z, same⟩ := right.freed ⟨some 0, some 1⟩ (by rw [freed]; exact List.mem_cons_self)
  cases same

end Flexbuild.Cmdif
