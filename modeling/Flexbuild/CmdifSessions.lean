import Flexbuild.CmdifServer

/-! Calls of the server one after the other, with the registrations numbered and each session
remembered as its open left it. As long as a registration takes a slot that no open session
refers to, a callback invoked for a session is the one of the module it was opened under. -/
namespace Flexbuild.Cmdif
open Words

inductive Call where
  | register (mName : Option (List UInt8)) (ops : Option ModuleOps)
  | unregister (mName : Option (List UInt8))
  | open_ (mName : List UInt8) (instId dpciId vData : Nat) (draws : Nat → Nat) (given : Given)
  | close (authId dpciId vData : Nat)
  | cmd (cfd : Cfd) (wantsOut : Bool) (given : Int)

def Call.session : Call → Option Nat
  | .close authId _ _ => some authId
  | .cmd cfd _ _ => some cfd.authId
  | _ => none

structure Session where
  registration : Nat
  dev : Nat
  deriving DecidableEq, Repr

structure History where
  server : Server
  registrations : Nat
  placed : Nat → Option Nat
  gone : List Nat
  opened : Nat → Option Session

def History.start (s : Server) : History := ⟨s, 0, fun _ => none, [], fun _ => none⟩

def History.register (h : History) (mName : Option (List UInt8)) (ops : Option ModuleOps) :
    History :=
  match h.server.register h.registrations mName ops with
  | (.error _, s) => { h with server := s }
  | (.ok id, s) =>
      { h with server := s
               registrations := h.registrations + 1
               placed := Function.update h.placed id (some h.registrations) }

def History.unregister (h : History) (mName : Option (List UInt8)) : History :=
  match h.server.unregister mName with
  | (.error _, s) => { h with server := s }
  | (.ok id, s) =>
      { h with server := s
               placed := Function.update h.placed id none
               gone := (h.placed id).toList ++ h.gone }

def History.open_ (h : History) (mName : List UInt8) (instId dpciId vData : Nat)
    (draws : Nat → Nat) (given : Given) : History :=
  let outcome := h.server.open_ mName instId dpciId vData draws given
  match h.server.moduleIdFind mName, outcome.answer with
  | .ok slot, .ok (authId, _) =>
      { h with server := outcome.server
               opened := Function.update h.opened authId
                 ((h.placed slot).map (fun r => ⟨r, given.dev⟩)) }
  | _, _ => { h with server := outcome.server }

def History.call (h : History) : Call → History
  | .register mName ops => h.register mName ops
  | .unregister mName => h.unregister mName
  | .open_ mName instId dpciId vData draws given =>
      h.open_ mName instId dpciId vData draws given
  | .close authId dpciId vData => { h with server := (h.server.close authId dpciId vData).server }
  | .cmd cfd wantsOut given => { h with server := (h.server.cmd cfd wantsOut given).server }

def History.called (h : History) : Call → Option (Callback × Nat)
  | .close authId dpciId vData => (h.server.close authId dpciId vData).called
  | .cmd cfd wantsOut given => (h.server.cmd cfd wantsOut given).called
  | _ => none

def History.run (h : History) : List Call → History
  | [] => h
  | c :: rest => (h.call c).run rest

def Server.unused (s : Server) (id : Nat) : Bool :=
  (List.range mNumOfInstances).all (fun a => decide (s.mId a ≠ id))

def History.allowed (h : History) : Call → Bool
  | .register (some mName) (some _) =>
      match h.server.moduleIdFree mName with
      | .error _ => true
      | .ok id => h.server.unused id
  | _ => true

def History.allAllowed (h : History) : List Call → Bool
  | [] => true
  | c :: rest => h.allowed c && (h.call c).allAllowed rest

def Callback.Under (r : Nat) (c : Callback) : Prop := ∀ q entry, c = .own q entry → q = r

def History.Stays (h : History) (z : Session) (slot : Nat) : Prop :=
  h.placed slot = some z.registration ∨
    h.server.closeCb slot = .empty ∧ h.server.ctrlCb slot = .empty

structure History.Ok (h : History) : Prop where
  named : ∀ k, (h.server.mName k).headD 0 ≠ freeModule → h.placed k ≠ none
  current : ∀ k r, h.placed k = some r → r < h.registrations ∧ r ∉ h.gone
  gone : ∀ r ∈ h.gone, r < h.registrations
  once : ∀ j k r, h.placed j = some r → h.placed k = some r → j = k
  under : ∀ k r, h.placed k = some r →
    (h.server.closeCb k).Under r ∧ (h.server.ctrlCb k).Under r
  open_ : ∀ a, h.server.mId a ≠ freeInstance → h.server.mId a < mNumOfModules ∧
    ∃ z, h.opened a = some z ∧ h.server.instDev a = z.dev ∧ z.registration < h.registrations ∧
      h.Stays z (h.server.mId a)
  beyond : ∀ a, mNumOfInstances ≤ a → h.server.mId a = freeInstance

section Steps

variable {h : History} {s : Server} {id : Nat}

theorem startOk (fresh : s.Allocated) : (History.start s).Ok := by
  refine ⟨?_, ?_, ?_, ?_, ?_, ?_, fun a _ => fresh.mId a⟩
  · intro k named
    refine absurd ?_ named
    show (s.mName k).headD 0 = freeModule
    rw [fresh.mName k]
    rfl
  · intro k r placed
    cases placed
  · intro r mem
    cases mem
  · intro j k r placed
    cases placed
  · intro k r placed
    cases placed
  · intro a taken
    exact absurd (fresh.mId a) taken

theorem broughtUnder (r : Nat) (entry : Option Nat) : (brought r entry).Under r := by
  intro q e same
  cases entry with
  | none => cases same
  | some entry => cases same; rfl

theorem placeOk (ok : h.Ok) {placed : Option Nat} {registrations : Nat} {gone : List Nat}
    {name : List UInt8} {open_ close ctrl : Callback}
    (more : h.registrations ≤ registrations)
    (named : name.headD 0 ≠ freeModule → placed ≠ none)
    (fresh : ∀ r, placed = some r → h.registrations ≤ r ∧ r < registrations)
    (goneIs : ∀ r ∈ gone, r ∈ h.gone ∨ h.placed id = some r)
    (under : ∀ r, placed = some r → close.Under r ∧ ctrl.Under r)
    (stays : (∀ a, h.server.mId a ≠ id) ∨ close = .empty ∧ ctrl = .empty) :
    History.Ok ⟨{ h.server with
        mName := Function.update h.server.mName id name
        openCb := Function.update h.server.openCb id open_
        closeCb := Function.update h.server.closeCb id close
        ctrlCb := Function.update h.server.ctrlCb id ctrl }, registrations,
      Function.update h.placed id placed, gone, h.opened⟩ := by
  have goneOld : ∀ r ∈ gone, r < h.registrations := by
    intro r mem
    rcases goneIs r mem with old | here
    · exact ok.gone r old
    · exact (ok.current id r here).1
  refine ⟨?_, ?_, ?_, ?_, ?_, ?_, ok.beyond⟩
  · intro k head
    by_cases same : k = id
    · subst same
      simp only [Function.update_self] at head ⊢
      exact named head
    · simp only [Function.update_of_ne same] at head ⊢
      exact ok.named k head
  · intro k r here
    dsimp only at here ⊢
    by_cases same : k = id
    · subst same
      rw [Function.update_self] at here
      obtain ⟨new, lt⟩ := fresh r here
      refine ⟨lt, ?_⟩
      intro mem
      exact absurd (goneOld r mem) (Nat.not_lt.mpr new)
    · rw [Function.update_of_ne same] at here
      obtain ⟨lt, present⟩ := ok.current k r here
      refine ⟨Nat.lt_of_lt_of_le lt more, ?_⟩
      intro mem
      rcases goneIs r mem with old | there
      · exact present old
      · exact same (ok.once k id r here there)
  · intro r mem
    exact Nat.lt_of_lt_of_le (goneOld r mem) more
  · intro i k r hereI hereK
    dsimp only at hereI hereK
    by_cases sameI : i = id
    · by_cases sameK : k = id
      · rw [sameI, sameK]
      · subst sameI
        rw [Function.update_self] at hereI
        rw [Function.update_of_ne sameK] at hereK
        exact absurd (ok.current k r hereK).1 (Nat.not_lt.mpr (fresh r hereI).1)
    · by_cases sameK : k = id
      · subst sameK
        rw [Function.update_self] at hereK
        rw [Function.update_of_ne sameI] at hereI
        exact absurd (ok.current i r hereI).1 (Nat.not_lt.mpr (fresh r hereK).1)
      · rw [Function.update_of_ne sameI] at hereI
        rw [Function.update_of_ne sameK] at hereK
        exact ok.once i k r hereI hereK
  · intro k r here
    by_cases same : k = id
    · subst same
      simp only [Function.update_self] at here ⊢
      exact under r here
    · simp only [Function.update_of_ne same] at here ⊢
      exact ok.under k r here
  · intro a taken
    obtain ⟨lt, z, opened, dev, old, stay⟩ := ok.open_ a taken
    refine ⟨lt, z, opened, dev, Nat.lt_of_lt_of_le old more, ?_⟩
    unfold History.Stays at stay ⊢
    by_cases same : h.server.mId a = id
    · rcases stays with apart | blank
      · exact absurd same (apart a)
      · dsimp only
        rw [same]
        simp only [Function.update_self]
        exact .inr blank
    · simp only [Function.update_of_ne same]
      exact stay

theorem registerOk (ok : h.Ok) {mName : Option (List UInt8)} {ops : Option ModuleOps}
    (allowed : h.allowed (.register mName ops) = true) : (h.register mName ops).Ok := by
  unfold History.register Server.register
  cases mName with
  | none => exact ok
  | some mName =>
    cases ops with
    | none => exact ok
    | some ops =>
      dsimp only
      unfold Server.moduleIdAlloc
      cases free : h.server.moduleIdFree mName with
      | error e => exact ok
      | ok id =>
        have unused : h.server.unused id = true := by simpa [History.allowed, free] using allowed
        refine placeOk ok (Nat.le_succ _) (fun _ => nofun) ?_ (fun r mem => .inl mem) ?_ (.inl ?_)
        · intro r same
          cases same
          exact ⟨Nat.le_refl _, Nat.lt_succ_self _⟩
        · intro r same
          cases same
          exact ⟨broughtUnder _ _, broughtUnder _ _⟩
        · intro a same
          rcases Nat.lt_or_ge a mNumOfInstances with lt | ge
          · exact of_decide_eq_true (List.all_eq_true.mp unused a (List.mem_range.mpr lt)) same
          · rw [ok.beyond a ge] at same
            have slot := (moduleIdFreeSome free).1
            rw [← same] at slot
            exact absurd slot (Nat.lt_irrefl _)

theorem unregisterOk (ok : h.Ok) (mName : Option (List UInt8)) : (h.unregister mName).Ok := by
  unfold History.unregister Server.unregister
  cases mName with
  | none => exact ok
  | some mName =>
    dsimp only
    cases found : h.server.moduleIdFind mName with
    | error e => exact ok
    | ok id =>
      refine placeOk ok (Nat.le_refl _) ?_ nofun ?_ nofun (.inr ⟨rfl, rfl⟩)
      · intro named
        refine absurd ?_ named
        cases h.server.mName id with
        | nil => rfl
        | cons b rest => rfl
      · intro r mem
        rcases List.mem_append.mp mem with here | old
        · exact .inr (Option.mem_toList.mp here)
        · exact .inl old

theorem openOk (ok : h.Ok) (mName : List UInt8) (instId dpciId vData : Nat) (draws : Nat → Nat)
    (given : Given) : (h.open_ mName instId dpciId vData draws given).Ok := by
  unfold History.open_ Server.open_
  cases found : h.server.moduleIdFind mName with
  | error e => exact ok
  | ok slot =>
    obtain ⟨narrow, head⟩ := moduleIdFindSome found
    dsimp only
    by_cases failed : (h.server.openCb slot).answer given.err ≠ 0
    · rw [if_pos failed]
      exact ok
    · rw [if_neg failed]
      rcases @instAllocCases h.server slot draws with full | ⟨id, lt, free, taken⟩
      · rw [full]
        exact ok
      · rw [taken]
        dsimp only
        have small : wrap 16 id = id := wrapSmall (Nat.lt_trans lt (by decide))
        have fits : wrap 8 slot = slot := wrapSmall (Nat.lt_trans narrow (by decide))
        rw [small, fits]
        refine ⟨ok.named, ok.current, ok.gone, ok.once, ok.under, ?_, ?_⟩
        · intro a used
          unfold History.Stays
          dsimp only at used ⊢
          by_cases same : a = id
          · subst same
            simp only [Function.update_self]
            obtain ⟨r, placed⟩ := Option.ne_none_iff_exists'.mp (ok.named slot head)
            rw [placed]
            exact ⟨narrow, ⟨r, given.dev⟩, rfl, rfl, (ok.current slot r placed).1, .inl rfl⟩
          · simp only [Function.update_of_ne same] at used ⊢
            exact ok.open_ a used
        · intro a ge
          have other : a ≠ id := by
            intro same
            subst same
            exact absurd lt (Nat.not_lt.mpr ge)
          dsimp only
          rw [Function.update_of_ne other]
          exact ok.beyond a ge

theorem closeOk (ok : h.Ok) (authId dpciId vData : Nat) :
    (h.call (.close authId dpciId vData)).Ok := by
  simp only [History.call, Server.close]
  split
  · exact ok
  · refine ⟨ok.named, ok.current, ok.gone, ok.once, ok.under, ?_, ?_⟩
    · intro a used
      simp only [Server.instDealloc] at used ⊢
      by_cases same : a = authId
      · subst same
        rw [Function.update_self] at used
        exact absurd rfl used
      · rw [Function.update_of_ne same] at used ⊢
        exact ok.open_ a used
    · intro a ge
      simp only [Server.instDealloc]
      by_cases same : a = authId
      · rw [same, Function.update_self]
      · rw [Function.update_of_ne same]
        exact ok.beyond a ge

theorem cmdServer (s : Server) (cfd : Cfd) (wantsOut : Bool) (given : Int) :
    (s.cmd cfd wantsOut given).server = s := by
  unfold Server.cmd
  split
  · rfl
  · split
    · rfl
    · rfl

theorem callOk (ok : h.Ok) {c : Call} (allowed : h.allowed c = true) : (h.call c).Ok := by
  cases c with
  | register mName ops => exact registerOk ok allowed
  | unregister mName => exact unregisterOk ok mName
  | open_ mName instId dpciId vData draws given =>
    exact openOk ok mName instId dpciId vData draws given
  | close authId dpciId vData => exact closeOk ok authId dpciId vData
  | cmd cfd wantsOut given =>
    simp only [History.call, cmdServer]
    exact ok

theorem runOk (ok : h.Ok) {calls : List Call} (allowed : h.allAllowed calls = true) :
    (h.run calls).Ok := by
  induction calls generalizing h with
  | nil => exact ok
  | cons c rest ih =>
    rw [History.allAllowed, Bool.and_eq_true] at allowed
    exact ih (callOk ok allowed.1) allowed.2

theorem staysRight (ok : h.Ok) {a : Nat} (valid : h.server.isValidAuthId a = true) {c : Callback}
    (mine : c = h.server.closeCb (h.server.mId a) ∨ c = h.server.ctrlCb (h.server.mId a))
    {r entry : Nat} (own : c = .own r entry) :
    h.opened a = some ⟨r, h.server.instDev a⟩ ∧ r ∉ h.gone := by
  have inside := (of_decide_eq_true valid).2
  have used : h.server.mId a ≠ freeInstance := Nat.ne_of_lt inside
  obtain ⟨_, z, opened, dev, _, stay⟩ := ok.open_ a used
  rcases stay with placed | ⟨close, ctrl⟩
  · obtain ⟨close, ctrl⟩ := ok.under _ _ placed
    have same : r = z.registration := by
      rcases mine with rfl | rfl
      · exact close r entry own
      · exact ctrl r entry own
    rw [opened, dev, same]
    exact ⟨rfl, (ok.current _ _ placed).2⟩
  · rcases mine with rfl | rfl
    · rw [close] at own
      cases own
    · rw [ctrl] at own
      cases own

theorem calledCases {c : Call} {a : Nat} (session : c.session = some a) {cb : Callback} {dev : Nat}
    (called : h.called c = some (cb, dev)) :
    h.server.isValidAuthId a = true ∧ dev = h.server.instDev a ∧
      (cb = h.server.closeCb (h.server.mId a) ∨ cb = h.server.ctrlCb (h.server.mId a)) := by
  cases c with
  | register mName ops => cases session
  | unregister mName => cases session
  | open_ mName instId dpciId vData draws given => cases session
  | close authId dpciId vData =>
    cases session
    simp only [History.called, Server.close] at called
    split at called
    · cases called
    · rename_i valid
      cases called
      exact ⟨Bool.not_eq_false _ |>.mp valid, rfl, .inl rfl⟩
  | cmd cfd wantsOut given =>
    cases session
    simp only [History.called, Server.cmd] at called
    split at called
    · cases called
    · rename_i valid
      split at called
      · cases called
      · cases called
        exact ⟨Bool.not_eq_false _ |>.mp valid, rfl, .inr rfl⟩

end Steps

def History.Right (h : History) (c : Call) : Prop :=
  ∀ a r entry dev, c.session = some a → h.called c = some (.own r entry, dev) →
    h.opened a = some ⟨r, dev⟩ ∧ r ∉ h.gone

theorem callRight {h : History} (ok : h.Ok) (c : Call) : h.Right c := by
  intro a r entry dev session called
  obtain ⟨valid, rfl, mine⟩ := calledCases session called
  exact staysRight ok valid mine rfl

theorem sessionsKept {s : Server} (fresh : s.Allocated) {calls : List Call}
    (allowed : (History.start s).allAllowed calls = true) (c : Call) :
    ((History.start s).run calls).Right c :=
  callRight (runOk (startOk fresh) allowed) c

def Server.blank : Server where
  mName := fun _ => List.replicate (mNameChars + 1) freeModule
  openCb := fun _ => .empty
  closeCb := fun _ => .empty
  ctrlCb := fun _ => .empty
  instDev := fun _ => 0
  syncDone := fun _ => 0
  mId := fun _ => freeInstance
  instCount := 0

theorem blankAllocated : Server.blank.Allocated :=
  ⟨fun _ => rfl, fun _ => rfl, fun _ => rfl, rfl⟩

def replaceCalls : List Call :=
  [.register (some [65]) (some ⟨some 1, some 2, some 3⟩),
    .open_ [65] 0 0 0 (fun _ => 5) ⟨0, 77⟩, .close 5 0 0, .unregister (some [65]),
    .register (some [66]) (some ⟨some 4, some 5, some 6⟩),
    .open_ [66] 0 0 0 (fun _ => 5) ⟨0, 78⟩]

def syncOn (authId : Nat) : Cfd := ⟨authId, 0, 0, 0, 0, 0, 0, 0⟩

theorem sessionsKeptReplaced :
    ((History.start Server.blank).run replaceCalls).called (.cmd (syncOn 5) true 0) =
        some (.own 1 6, 78) ∧
      ((History.start Server.blank).run replaceCalls).Right (.cmd (syncOn 5) true 0) :=
  ⟨by decide +kernel, sessionsKept blankAllocated (by decide +kernel) _⟩

def reuseCalls : List Call :=
  [.register (some [65]) (some ⟨some 1, some 2, some 3⟩),
    .open_ [65] 0 0 0 (fun _ => 5) ⟨0, 77⟩, .unregister (some [65]),
    .register (some [66]) (some ⟨some 4, some 5, some 6⟩)]

theorem slotReused :
    ∃ s : Server, s.Allocated ∧
      ∃ calls c, ¬ ((History.start s).run calls).Right c := by
  refine ⟨Server.blank, blankAllocated, reuseCalls, .cmd (syncOn 5) true 0, ?_⟩
  intro right
  have called : ((History.start Server.blank).run reuseCalls).called (.cmd (syncOn 5) true 0) =
      some (.own 1 6, 77) := by decide
  have opened : ((History.start Server.blank).run reuseCalls).opened 5 = some ⟨0, 77⟩ := by
    decide
  have claimed := (right 5 1 6 77 rfl called).1
  rw [opened] at claimed
  cases claimed

end Flexbuild.Cmdif
