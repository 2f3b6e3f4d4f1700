import Mathlib.Logic.Function.Basic
import Flexbuild.Probing
import Flexbuild.Words

/-! The command interface server: a table of modules by name with their callbacks, and a table
of sessions. A session holds the number of its module's slot and the device pointer that the
open callback gave. Results are error codes as in the source, zero for success. -/
namespace Flexbuild.Cmdif
open Words Probing

def eperm : Int := -1
def enomem : Int := -12
def eexist : Int := -17
def enodev : Int := -19
def einval : Int := -22
def enavail : Int := -119

def cmdIdOpen : Nat := 0x8000
def cmdIdClose : Nat := 0x4000
def cmdIdNotifyOpen : Nat := 0xF000
def cmdIdNotifyClose : Nat := 0xE000
def cmdifAsyncCmd : Nat := 0x2000
def cmdifNorespCmd : Nat := 0x1000
def mNumOfInstances : Nat := 512
def mNumOfModules : Nat := 64
def mNameChars : Nat := 8
def openAuthId : Nat := 0xFFFF
def freeModule : UInt8 := 0
def freeInstance : Nat := mNumOfModules

def strncmp : Nat → List UInt8 → List UInt8 → Bool
  | 0, _, _ => true
  | n + 1, a, b =>
      decide (a.headD 0 = b.headD 0) && (decide (a.headD 0 = 0) || strncmp n a.tail b.tail)

def strncpy : Nat → List UInt8 → List UInt8
  | 0, _ => []
  | n + 1, s =>
      if s.headD 0 = 0 then List.replicate (n + 1) 0 else s.headD 0 :: strncpy n s.tail

inductive Callback where
  | empty
  | own (registration entry : Nat)
  deriving DecidableEq, Repr

def Callback.answer (given : Int) : Callback → Int
  | .empty => enodev
  | .own _ _ => given

structure ModuleOps where
  openCb : Option Nat
  closeCb : Option Nat
  ctrlCb : Option Nat
  deriving DecidableEq, Repr

structure Server where
  mName : Nat → List UInt8
  openCb : Nat → Callback
  closeCb : Nat → Callback
  ctrlCb : Nat → Callback
  instDev : Nat → Nat
  syncDone : Nat → Nat
  mId : Nat → Nat
  instCount : Nat

-- `cmdif_srv_allocate`: the callbacks and `sync_done` are what the memory held.
structure Server.Allocated (s : Server) : Prop where
  mName : ∀ i, s.mName i = List.replicate (mNameChars + 1) freeModule
  instDev : ∀ a, s.instDev a = 0
  mId : ∀ a, s.mId a = freeInstance
  instCount : s.instCount = 0

def brought (registration : Nat) : Option Nat → Callback
  | none => .empty
  | some entry => .own registration entry

-- The loop of `module_id_alloc`: the first free slot, unless the name is there.
def Server.moduleIdScan (s : Server) (mName : List UInt8) : List Nat → Option Nat →
    Except Int (Option Nat)
  | [], id => .ok id
  | i :: rest, id =>
      if (s.mName i).headD 0 = freeModule ∧ id = none then s.moduleIdScan mName rest (some i)
      else if strncmp mNameChars (s.mName i) mName then .error eexist
      else s.moduleIdScan mName rest id

def Server.moduleIdFree (s : Server) (mName : List UInt8) : Except Int Nat :=
  if mName.headD 0 = freeModule then .error einval
  else
    match s.moduleIdScan mName (List.range mNumOfModules) none with
    | .error e => .error e
    | .ok none => .error enavail
    | .ok (some id) => .ok id

def Server.install (s : Server) (registration id : Nat) (mName : List UInt8) (ops : ModuleOps) :
    Server :=
  { s with
    mName := Function.update s.mName id (strncpy mNameChars mName ++ [0])
    ctrlCb := Function.update s.ctrlCb id (brought registration ops.ctrlCb)
    openCb := Function.update s.openCb id (brought registration ops.openCb)
    closeCb := Function.update s.closeCb id (brought registration ops.closeCb) }

def Server.moduleIdAlloc (s : Server) (registration : Nat) (mName : List UInt8) (ops : ModuleOps) :
    Except Int Nat × Server :=
  match s.moduleIdFree mName with
  | .error e => (.error e, s)
  | .ok id => (.ok id, s.install registration id mName ops)

def Server.moduleIdFind (s : Server) (mName : List UInt8) : Except Int Nat :=
  if mName.headD 0 = freeModule then .error einval
  else
    match (List.range mNumOfModules).find? (fun i => strncmp mNameChars (s.mName i) mName) with
    | none => .error enavail
    | some i => .ok i

def Server.register (s : Server) (registration : Nat) (mName : Option (List UInt8))
    (ops : Option ModuleOps) : Except Int Nat × Server :=
  match mName, ops with
  | some mName, some ops => s.moduleIdAlloc registration mName ops
  | _, _ => (.error einval, s)

def Server.vacate (s : Server) (id : Nat) : Server :=
  { s with
    ctrlCb := Function.update s.ctrlCb id .empty
    openCb := Function.update s.openCb id .empty
    closeCb := Function.update s.closeCb id .empty
    mName := Function.update s.mName id ((s.mName id).set 0 freeModule) }

def Server.unregister (s : Server) (mName : Option (List UInt8)) : Except Int Nat × Server :=
  match mName with
  | none => (.error einval, s)
  | some mName =>
      match s.moduleIdFind mName with
      | .error e => (.error e, s)
      | .ok id => (.ok id, s.vacate id)

def Server.taken (s : Server) (a : Nat) : Bool := decide (s.mId a ≠ freeInstance)

def Server.instAlloc (s : Server) (mId : Nat) (draws : Nat → Nat) : Except Int Nat × Server :=
  let r := search mNumOfInstances s.taken draws
  if s.taken r then (.error enavail, s)
  else
    (.ok r, { s with mId := Function.update s.mId r (wrap 8 mId)
                     instCount := wrap 16 (s.instCount + 1) })

def Server.instDealloc (s : Server) (inst : Nat) : Server :=
  { s with mId := Function.update s.mId inst freeInstance
           instCount := minus 16 s.instCount 1 }

-- `IS_VALID_AUTH_ID`, once the tables are allocated.
def Server.isValidAuthId (s : Server) (id : Nat) : Bool :=
  decide (id < mNumOfInstances ∧ s.mId id < mNumOfModules)

structure SessionData where
  done : Nat
  err : Int
  authId : Nat
  devId : Nat
  instId : Nat
  mName : List UInt8
  deriving DecidableEq, Repr

structure Outcome (α : Type) where
  answer : Except Int α
  called : Option (Callback × Nat)
  server : Server

structure Given where
  err : Int
  dev : Nat
  deriving DecidableEq, Repr

def Server.open_ (s : Server) (mName : List UInt8) (instId dpciId vData : Nat)
    (draws : Nat → Nat) (given : Given) : Outcome (Nat × Option SessionData) :=
  match s.moduleIdFind mName with
  | .error e => ⟨.error e, none, s⟩
  | .ok mId =>
      let err := (s.openCb mId).answer given.err
      if err ≠ 0 then ⟨.error err, none, s⟩
      else
        match s.instAlloc mId draws with
        | (.error e, s) => ⟨.error e, none, s⟩
        | (.ok id, s) =>
            let data : SessionData := ⟨0, 0, wrap 16 id, dpciId, instId, strncpy mNameChars mName ++ [0]⟩
            ⟨.ok (wrap 16 id, if vData = 0 then none else some data), none,
              { s with instDev := Function.update s.instDev id given.dev
                       syncDone := Function.update s.syncDone id vData }⟩

def Server.close (s : Server) (authId dpciId vData : Nat) : Outcome (Option (Nat × Nat)) :=
  if s.isValidAuthId authId = false then ⟨.error einval, none, s⟩
  else
    ⟨.ok (if vData = 0 then none else some (authId, dpciId)),
      some (s.closeCb (s.mId authId), s.instDev authId), s.instDealloc authId⟩

structure Cfd where
  authId : Nat
  devH : Nat
  err : Nat
  cmid : Nat
  epid : Nat
  frc : Nat
  dSize : Nat
  dAddr : Nat
  deriving DecidableEq, Repr

def sendResp (cmd : Nat) : Bool :=
  decide (cmd &&& cmdifNorespCmd = 0 ∧ cmd ≠ cmdIdNotifyClose ∧ cmd ≠ cmdIdNotifyOpen ∧
    cmd &&& cmdifAsyncCmd ≠ 0)

def syncCmd (cmd : Nat) : Bool :=
  decide (cmd &&& cmdifNorespCmd = 0 ∧ cmd &&& cmdifAsyncCmd = 0)

structure SyncDone where
  address : Nat
  err : Int
  done : Nat
  authId : Nat
  deriving DecidableEq, Repr

structure Response where
  sendResp : Bool
  syncDone : Option SyncDone
  cfdOut : Option Cfd
  deriving DecidableEq, Repr

def int8 (z : Int) : Int := Int.bmod z (2 ^ 8)

def Server.cmd (s : Server) (cfd : Cfd) (wantsOut : Bool) (given : Int) : Outcome Response :=
  if s.isValidAuthId cfd.authId = false then ⟨.error eperm, none, s⟩
  else if sendResp cfd.cmid && !wantsOut then ⟨.error einval, none, s⟩
  else
    let called := (s.ctrlCb (s.mId cfd.authId), s.instDev cfd.authId)
    let err := called.1.answer given
    let syncDone :=
      if syncCmd cfd.cmid = true ∧ s.syncDone cfd.authId ≠ 0 then
        some ⟨s.syncDone cfd.authId, int8 err, 1, cfd.authId⟩
      else none
    let cfdOut :=
      if syncCmd cfd.cmid = false ∧ sendResp cfd.cmid = true then
        some { cfd with err := (err % 2 ^ 8).toNat }
      else none
    ⟨.ok ⟨sendResp cfd.cmid, syncDone, cfdOut⟩, some called, s⟩

section Names

variable {s : Server} {name stored : List UInt8} {registration id : Nat}

theorem strncmpHead {n : Nat} (same : strncmp (n + 1) stored name = true) :
    stored.headD 0 = name.headD 0 := by
  unfold strncmp at same
  simp only [Bool.and_eq_true, decide_eq_true_eq] at same
  exact same.1

theorem moduleIdFindSome (found : s.moduleIdFind name = .ok id) :
    id < mNumOfModules ∧ (s.mName id).headD 0 ≠ freeModule := by
  unfold Server.moduleIdFind at found
  split at found
  · cases found
  · rename_i named
    split at found
    · cases found
    · rename_i i first
      cases found
      refine ⟨List.mem_range.mp (List.mem_of_find?_eq_some first), ?_⟩
      have matched : strncmp mNameChars (s.mName id) name = true := by
        simpa using List.find?_some first
      rw [strncmpHead (n := 7) matched]
      exact named

theorem moduleIdScanSome {slots : List Nat} {from_ : Option Nat}
    (found : s.moduleIdScan name slots from_ = .ok (some id)) :
    from_ = some id ∨ id ∈ slots ∧ (s.mName id).headD 0 = freeModule := by
  induction slots generalizing from_ with
  | nil =>
    unfold Server.moduleIdScan at found
    exact .inl (Except.ok.inj found)
  | cons i rest ih =>
    unfold Server.moduleIdScan at found
    split at found
    · rename_i free
      rcases ih found with here | ⟨mem, blank⟩
      · cases here
        exact .inr ⟨List.mem_cons_self, free.1⟩
      · exact .inr ⟨List.mem_cons_of_mem i mem, blank⟩
    · split at found
      · cases found
      · rcases ih found with before | ⟨mem, blank⟩
        · exact .inl before
        · exact .inr ⟨List.mem_cons_of_mem i mem, blank⟩

theorem moduleIdFreeSome (found : s.moduleIdFree name = .ok id) :
    id < mNumOfModules ∧ (s.mName id).headD 0 = freeModule := by
  unfold Server.moduleIdFree at found
  split at found
  · cases found
  · split at found
    · cases found
    · cases found
    · rename_i slot scanned
      cases found
      rcases moduleIdScanSome scanned with none_ | ⟨mem, blank⟩
      · cases none_
      · exact ⟨List.mem_range.mp mem, blank⟩

end Names

section Instances

variable {s : Server} {mId id : Nat} {draws : Nat → Nat}

theorem instAllocFails :
    (s.instAlloc mId draws).1 = .error enavail ↔ ∀ a < mNumOfInstances, s.taken a = true := by
  rw [← @searchTaken mNumOfInstances s.taken draws (by decide)]
  unfold Server.instAlloc
  dsimp only
  split
  · rename_i full
    exact ⟨fun _ => full, fun _ => rfl⟩
  · rename_i free
    exact ⟨fun ok => (nomatch ok), fun full => absurd full free⟩

theorem instAllocCases :
    s.instAlloc mId draws = (.error enavail, s) ∨
      ∃ r < mNumOfInstances, s.mId r = freeInstance ∧ s.instAlloc mId draws =
        (.ok r, { s with mId := Function.update s.mId r (wrap 8 mId)
                         instCount := wrap 16 (s.instCount + 1) }) := by
  unfold Server.instAlloc
  dsimp only
  split
  · exact .inl rfl
  · rename_i free
    have unmarked : s.mId (search mNumOfInstances s.taken draws) = freeInstance := by
      simpa [Server.taken] using free
    exact .inr ⟨_, searchLt (by decide), unmarked, rfl⟩

end Instances

end Flexbuild.Cmdif
