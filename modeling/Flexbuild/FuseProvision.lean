import Flexbuild.FuseModel

/-! What is in the mirror registers when the command is given. Each of the programs writes its own
registers and no other, so a register holds what the one program left that owns it, and before that
program ran it still held what it had at the start. -/
namespace Flexbuild.Fuse
open GuardedSteps

variable {hw : Hardware} {ver : SfpVersion} {hdr : FuseHdr} {s s' : Sfp} {words : List (Reg × Word)} {e e' : ErrorCode}

inductive Part where
  | srkh | oemuid | dcv | drv | otpmk | ospr1 | syscfg | fixed
  deriving DecidableEq

def partOf : Reg → Part
  | .ospr => .syscfg
  | .ospr1 => .ospr1
  | .dcv _ => .dcv
  | .drv _ => .drv
  | .otpmk _ => .otpmk
  | .srkHash _ => .srkh
  | .oemUid _ => .oemuid
  | .fswpr | .fslUid _ | .isbcr | .fsspr _ => .fixed

structure Keeps (part : Part) (s s' : Sfp) : Prop where
  regs : ∀ reg, partOf reg ≠ part → s'.regs reg = s.regs reg

theorem keepsSelf (part : Part) (s : Sfp) : Keeps part s s := ⟨fun _ _ => rfl⟩

theorem keepsOther {part mine : Part} {reg : Reg} (keeps : Keeps part s s') (own : partOf reg = mine) (other : mine ≠ part) :
    s'.regs reg = s.regs reg :=
  keeps.regs reg (own ▸ other)

def KeepsAll (parts : List Part) (s s' : Sfp) : Prop :=
  ∀ ⦃reg part⦄, partOf reg = part → part ∉ parts → s'.regs reg = s.regs reg

theorem keepsAll {part : Part} (keeps : Keeps part s s') : KeepsAll [part] s s' :=
  fun _ _ own other => keepsOther keeps own (mt List.mem_singleton.mpr other)

theorem keepsTrans {parts others : List Part} {m : Sfp} (first : KeepsAll parts s m) (rest : KeepsAll others m s') :
    KeepsAll (parts ++ others) s s' := by
  intro reg part own other
  rw [List.mem_append, not_or] at other
  exact (rest own other.2).trans (first own other.1)

theorem writtenOther {reg : Reg} (other : reg ∉ words.map Prod.fst) (s : Sfp) :
    (words.foldl (fun s p => s.out32 hw p.1 p.2) s).regs reg = s.regs reg := by
  induction words generalizing s with
  | nil => rfl
  | cons p rest later =>
    rw [List.map_cons, List.mem_cons, not_or] at other
    rw [List.foldl_cons, later other.2]
    exact Function.update_of_ne other.1 _ _

theorem writtenAt (apart : (words.map Prod.fst).Nodup) {p : Reg × Word} (member : p ∈ words) (s : Sfp) :
    (words.foldl (fun s p => s.out32 hw p.1 p.2) s).regs p.1 = hw.takes p.1 (s.regs p.1) p.2 := by
  induction words generalizing s with
  | nil => exact absurd member List.not_mem_nil
  | cons q rest later =>
    rw [List.map_cons, List.nodup_cons] at apart
    rw [List.foldl_cons]
    rcases List.mem_cons.mp member with rfl | behind
    · rw [writtenOther apart.1]
      exact Function.update_self _ _ _
    · have other : p.1 ≠ q.1 := fun same => apart.1 (same ▸ List.mem_map_of_mem behind)
      rw [later apart.2 behind]
      exact congrArg (hw.takes p.1 · p.2) (Function.update_of_ne other _ _)

theorem writtenKey (s : Sfp) : (words.foldl (fun s p => s.out32 hw p.1 p.2) s).otpmk = s.otpmk := by
  induction words generalizing s with
  | nil => rfl
  | cons p rest later => exact later _

theorem writtenIssued (s : Sfp) : (words.foldl (fun s p => s.out32 hw p.1 p.2) s).issued = s.issued := by
  induction words generalizing s with
  | nil => rfl
  | cons p rest later => exact later _

theorem writtenKeeps {part : Part} (owned : ∀ p ∈ words, partOf p.1 = part) (s : Sfp) :
    Keeps part s (words.foldl (fun s p => s.out32 hw p.1 p.2) s) := by
  refine ⟨fun reg other => writtenOther (fun member => ?_) s⟩
  obtain ⟨p, inside, rfl⟩ := List.mem_map.mp member
  exact other (owned p inside)

theorem passesBlown : Passes (blownCheck words e) s s' ↔ (∀ p ∈ words, s.regs p.1 = 0) ∧ s' = s := by
  simp [blownCheck]

theorem passesReadBack : Passes (readBack words e) s s' ↔ (∀ p ∈ words, s.regs p.1 = p.2) ∧ s' = s := by
  simp [readBack]

theorem passesHamming {mask : Word} : Passes (hammingCheck hw mask e) s s' ↔ hw.svhesr s.regs &&& mask = 0 ∧ s' = s := by
  simp [hammingCheck]

theorem passesBurn {part : Part} (owned : ∀ p ∈ words, partOf p.1 = part)
    (passes : Passes (inOrder [blownCheck words e, writeWords hw words, readBack words e']) s s') :
    (∀ p ∈ words, s.regs p.1 = 0 ∧ s'.regs p.1 = p.2) ∧ Keeps part s s' ∧ s'.otpmk = s.otpmk := by
  simp only [passesCons, passesNil, passesBlown, passesReadBack, writeWords, passesAct] at passes
  obtain ⟨_, ⟨blank, rfl⟩, _, rfl, _, ⟨taken, rfl⟩, rfl⟩ := passes
  exact ⟨fun p member => ⟨blank p member, taken p member⟩, writtenKeeps owned _, writtenKey _⟩

theorem memFamily {n : Nat} (reg : Fin n → Reg) (value : Fin n → Word) (i : Fin n) :
    (reg i, value i) ∈ (List.finRange n).map fun i => (reg i, value i) :=
  List.mem_map_of_mem (List.mem_finRange i)

theorem familyOwned {n : Nat} {reg : Fin n → Reg} {value : Fin n → Word} {part : Part} (owned : ∀ i, partOf (reg i) = part) :
    ∀ p ∈ (List.finRange n).map fun i => (reg i, value i), partOf p.1 = part := by
  intro p member
  obtain ⟨i, _, rfl⟩ := List.mem_map.mp member
  exact owned i

theorem familyApart {n : Nat} {reg : Fin n → Reg} {value : Fin n → Word} (injective : Function.Injective reg) :
    (((List.finRange n).map fun i => (reg i, value i)).map Prod.fst).Nodup := by
  rw [List.map_map]
  exact (List.nodup_finRange n).map injective

def Chosen (flag : Bool) (old new value : Word) : Prop := if flag then old = 0 ∧ new = value else new = old

theorem chosenOn {flag : Bool} {old new value : Word} (on : flag = true) (burnt : old = 0 ∧ new = value) :
    Chosen flag old new value := by
  rw [Chosen, if_pos on]
  exact burnt

theorem chosenOff {flag : Bool} {old new value : Word} (off : flag = false) (same : new = old) : Chosen flag old new value := by
  rw [Chosen, off]
  exact same

theorem passesSrkh (passes : Passes (given (hdr.flag flagSrkhShift 1) (progSrkh hw hdr)) s s') :
    (∀ i, Chosen (hdr.flag flagSrkhShift 1) (s.regs (.srkHash i)) (s'.regs (.srkHash i)) (hdr.srkh i)) ∧
      Keeps .srkh s s' ∧ s'.otpmk = s.otpmk := by
  rcases passesGiven.mp passes with ⟨on, burn⟩ | ⟨off, rfl⟩
  · obtain ⟨words, keeps, key⟩ := passesBurn (@familyOwned 8 .srkHash hdr.srkh .srkh fun _ => rfl) burn
    exact ⟨fun i => chosenOn on (words _ (memFamily .srkHash hdr.srkh i)), keeps, key⟩
  · exact ⟨fun i => chosenOff off rfl, keepsSelf _ _, rfl⟩

def oemuidTurn (hw : Hardware) (hdr : FuseHdr) (i : Fin 5) : Program :=
  given (hdr.flag (flagOuid0Shift + i.val) 1)
    (inOrder [blownCheck [(.oemUid i, hdr.oemUid i)] .oemuidAlreadyBlown, writeWords hw [(.oemUid i, hdr.oemUid i)],
      readBack [(.oemUid i, hdr.oemUid i)] .oemuidWrite])

theorem passesOemuidTurn {i : Fin 5} (passes : Passes (oemuidTurn hw hdr i) s s') :
    Chosen (hdr.flag (flagOuid0Shift + i.val) 1) (s.regs (.oemUid i)) (s'.regs (.oemUid i)) (hdr.oemUid i) ∧
      (∀ reg, reg ≠ .oemUid i → s'.regs reg = s.regs reg) ∧ s'.otpmk = s.otpmk := by
  rcases passesGiven.mp passes with ⟨on, burn⟩ | ⟨off, rfl⟩
  · simp only [passesCons, passesNil, passesBlown, passesReadBack, writeWords, passesAct] at burn
    obtain ⟨_, ⟨blank, rfl⟩, _, rfl, _, ⟨taken, rfl⟩, rfl⟩ := burn
    exact ⟨chosenOn on ⟨blank _ List.mem_cons_self, taken _ List.mem_cons_self⟩,
      fun reg other => Function.update_of_ne other _ _, rfl⟩
  · exact ⟨chosenOff off rfl, fun _ _ => rfl, rfl⟩

theorem passesOemuidLoop {turns : List (Fin 5)} (apart : turns.Nodup)
    (passes : Passes (inOrder (turns.map (oemuidTurn hw hdr))) s s') :
    (∀ i ∈ turns, Chosen (hdr.flag (flagOuid0Shift + i.val) 1) (s.regs (.oemUid i)) (s'.regs (.oemUid i)) (hdr.oemUid i)) ∧
      (∀ reg, (∀ i ∈ turns, reg ≠ .oemUid i) → s'.regs reg = s.regs reg) ∧ s'.otpmk = s.otpmk := by
  induction turns generalizing s with
  | nil =>
    rw [passesNil.mp passes]
    exact ⟨fun _ member => absurd member List.not_mem_nil, fun _ _ => rfl, rfl⟩
  | cons i rest later =>
    obtain ⟨fresh, apart⟩ := List.nodup_cons.mp apart
    obtain ⟨m, first, tail⟩ := passesCons.mp passes
    obtain ⟨chosen, kept, key⟩ := passesOemuidTurn first
    obtain ⟨chosen', kept', key'⟩ := later apart tail
    refine ⟨fun j member => ?_, fun reg other => ?_, key'.trans key⟩
    · rcases List.mem_cons.mp member with rfl | behind
      · rw [kept' (.oemUid j) fun k inside same => fresh (Reg.oemUid.inj same ▸ inside)]
        exact chosen
      · have before := kept (.oemUid j) fun same => fresh (Reg.oemUid.inj same ▸ behind)
        rw [← before]
        exact chosen' j behind
    · rw [kept' reg fun j inside => other j (List.mem_cons_of_mem i inside), kept reg (other i List.mem_cons_self)]

theorem flagBit (hdr : FuseHdr) (shift : Nat) : hdr.flag shift 1 = hdr.flags.getLsbD shift := by
  have bit : hdr.flags >>> shift &&& 1 = (BitVec.ofBool (hdr.flags.getLsbD shift)).setWidth 32 := by
    have := BitVec.and_one_eq_setWidth_ofBool_getLsbD (x := hdr.flags >>> shift)
    rwa [BitVec.getLsbD_ushiftRight, Nat.add_zero] at this
  rw [FuseHdr.flag, FuseHdr.field, bit]
  cases hdr.flags.getLsbD shift <;> rfl

theorem fieldOff {shift k : Nat} {mask : Word} (off : hdr.flag shift mask = false) (member : mask.getLsbD k = true) :
    hdr.flags.getLsbD (shift + k) = false := by
  have zero : hdr.flags >>> shift &&& mask = 0 := by
    rw [FuseHdr.flag, FuseHdr.field, decide_eq_false_iff_not] at off
    exact Decidable.not_not.mp off
  have bit := congrArg (fun w : Word => w.getLsbD k) zero
  simpa [member] using bit

theorem flagOff {shift k : Nat} {mask : Word} (off : hdr.flag shift mask = false) (member : mask.getLsbD k = true) :
    hdr.flag (shift + k) 1 = false := by
  rw [flagBit]
  exact fieldOff off member

theorem passesOemuid (passes : Passes (given (hdr.flag flagOuid0Shift 0x1F) (progOemuid hw hdr)) s s') :
    (∀ i : Fin 5, Chosen (hdr.flag (flagOuid0Shift + i.val) 1) (s.regs (.oemUid i)) (s'.regs (.oemUid i)) (hdr.oemUid i)) ∧
      Keeps .oemuid s s' ∧ s'.otpmk = s.otpmk := by
  rcases passesGiven.mp passes with ⟨_, loop⟩ | ⟨off, rfl⟩
  · obtain ⟨chosen, kept, key⟩ := passesOemuidLoop (List.nodup_finRange 5) loop
    refine ⟨fun i => chosen i (List.mem_finRange i), ⟨fun reg other => kept reg fun i _ same => ?_⟩, key⟩
    exact other (same ▸ rfl)
  · have inside : ∀ i : Fin 5, (0x1F : Word).getLsbD i.val = true := by decide
    exact ⟨fun i => chosenOff (flagOff off (inside i)) rfl, keepsSelf _ _, rfl⟩

theorem passesDcv (passes : Passes (given (hdr.flag flagDcv0Shift 3)
      (inOrder [blownCheck (dcvWords hdr) .dcvAlreadyBlown, writeWords hw (dcvWords hdr), readBack (dcvWords hdr) .dcvWrite])) s s') :
    (∀ i, Chosen (hdr.flag flagDcv0Shift 3) (s.regs (.dcv i)) (s'.regs (.dcv i)) (hdr.dcv i)) ∧
      Keeps .dcv s s' ∧ s'.otpmk = s.otpmk := by
  rcases passesGiven.mp passes with ⟨on, burn⟩ | ⟨off, rfl⟩
  · obtain ⟨words, keeps, key⟩ := passesBurn (@familyOwned 2 .dcv hdr.dcv .dcv fun _ => rfl) burn
    exact ⟨fun i => chosenOn on (words _ (memFamily .dcv hdr.dcv i)), keeps, key⟩
  · exact ⟨fun i => chosenOff off rfl, keepsSelf _ _, rfl⟩

def HammingClear (hw : Hardware) (mask : Word) (mine : Reg → Prop) (mirror : Reg → Word) : Prop :=
  ∃ regs : Reg → Word, hw.svhesr regs &&& mask = 0 ∧ ∀ reg, mine reg → regs reg = mirror reg

theorem passesDrv (passes : Passes (given (hdr.flag flagDrv0Shift 3)
      (inOrder [blownCheck (drvWords hdr) .drvAlreadyBlown, writeWords hw (drvWords hdr),
        hammingCheck hw sfpSvhesrDrvMask .drvHammingError])) s s') :
    (∀ i, Chosen (hdr.flag flagDrv0Shift 3) (s.regs (.drv i)) (s'.regs (.drv i)) (hw.takes (.drv i) 0 (hdr.drv i))) ∧
      (hdr.flag flagDrv0Shift 3 = true → hw.svhesr s'.regs &&& sfpSvhesrDrvMask = 0) ∧ Keeps .drv s s' ∧ s'.otpmk = s.otpmk := by
  rcases passesGiven.mp passes with ⟨on, burn⟩ | ⟨off, rfl⟩
  · simp only [passesCons, passesNil, passesBlown, passesHamming, writeWords, passesAct] at burn
    obtain ⟨m, ⟨blank, rfl⟩, _, rfl, _, ⟨clear, rfl⟩, rfl⟩ := burn
    refine ⟨fun i => chosenOn on ?_, fun _ => clear, writtenKeeps (@familyOwned 2 .drv hdr.drv .drv fun _ => rfl) _,
      writtenKey _⟩
    have zero := blank _ (memFamily .drv hdr.drv i)
    have taken := @writtenAt hw _ (@familyApart 2 .drv hdr.drv fun _ _ => Reg.drv.inj) _ (memFamily .drv hdr.drv i) m
    rw [zero] at taken
    exact ⟨zero, taken⟩
  · exact ⟨fun i => chosenOff off rfl, fun on => absurd (off.symm.trans on) Bool.false_ne_true, keepsSelf _ _, rfl⟩

theorem partOff {shift k : Nat} {wide part : Word} (off : hdr.flag shift wide = false)
    (within : ∀ j < 32, part.getLsbD j = true → wide.getLsbD (k + j) = true) : hdr.flag (shift + k) part = false := by
  rw [FuseHdr.flag, FuseHdr.field, decide_eq_false_iff_not, not_not]
  ext j inside
  by_cases member : part.getLsbD j = true
  · have clear := fieldOff off (within j inside member)
    have bit : (hdr.flags >>> (shift + k)).getLsbD j = false := by
      rw [BitVec.getLsbD_ushiftRight, Nat.add_assoc]
      exact clear
    rw [BitVec.getElem_and, ← BitVec.getLsbD_eq_getElem, bit, Bool.false_and]
    simp
  · rw [BitVec.getElem_and, ← BitVec.getLsbD_eq_getElem (x := part), Bool.eq_false_of_not_eq_true member, Bool.and_false]
    simp

theorem passesDebug (passes : Passes (given (hdr.flag flagDcv0Shift 0xF) (progDebug hw hdr)) s s') : ∃ m,
    ((∀ i, Chosen (hdr.flag flagDcv0Shift 3) (s.regs (.dcv i)) (m.regs (.dcv i)) (hdr.dcv i)) ∧
      Keeps .dcv s m ∧ m.otpmk = s.otpmk) ∧
    (∀ i, Chosen (hdr.flag flagDrv0Shift 3) (m.regs (.drv i)) (s'.regs (.drv i)) (hw.takes (.drv i) 0 (hdr.drv i))) ∧
      (hdr.flag flagDrv0Shift 3 = true → hw.svhesr s'.regs &&& sfpSvhesrDrvMask = 0) ∧ Keeps .drv m s' ∧ s'.otpmk = m.otpmk := by
  rcases passesGiven.mp passes with ⟨_, program⟩ | ⟨off, rfl⟩
  · simp only [progDebug, passesCons, passesNil] at program
    obtain ⟨m, first, _, second, rfl⟩ := program
    exact ⟨m, passesDcv first, passesDrv second⟩
  · have dcv : hdr.flag flagDcv0Shift 3 = false := partOff (k := 0) off (by decide)
    have drv : hdr.flag flagDrv0Shift 3 = false := partOff (k := 2) off (by decide)
    exact ⟨s', ⟨fun i => chosenOff dcv rfl, keepsSelf _ _, rfl⟩, fun i => chosenOff drv rfl,
      fun on => absurd (drv.symm.trans on) Bool.false_ne_true, keepsSelf _ _, rfl⟩

def wantedOtpmk (hw : Hardware) (hdr : FuseHdr) (otpmk : Fin 8 → Word) : Option (Fin 8 → Word) :=
  let mode := hdr.field flagOtpmkShift 0xF
  if mode = progOtpmkMin then some minimalOtpmk
  else if mode = progOtpmkRandom then some (swapOtpmk (otpmkMakeCodeWord256 hw.random false))
  else if mode = progOtpmkUser then some otpmk
  else if mode = progOtpmkRandomMin then some (swapOtpmk (otpmkMakeCodeWord256 hw.random true))
  else if mode = progOtpmkUserMin then some otpmk
  else none

structure KeyBurnt (hw : Hardware) (hdr : FuseHdr) (s : Sfp) (mirror : Reg → Word) : Prop where
  taken : ∀ i, mirror (.otpmk i) = match wantedOtpmk hw hdr s.otpmk with
    | none => s.regs (.otpmk i)
    | some key => hw.takes (.otpmk i) (s.regs (.otpmk i)) (key i)
  blank : hdr.field flagOtpmkShift 0xF ∈ [progOtpmkMin, progOtpmkRandom, progOtpmkUser] → ∀ i, s.regs (.otpmk i) = 0
  minimal : hdr.field flagOtpmkShift 0xF = progOtpmkUserMin → s.otpmk 0 &&& otpmkMimBitsMask = otpmkMimBitsMask

theorem passesOtpmkBlown : Passes otpmkBlown s s' ↔ (∀ i, s.regs (.otpmk i) = 0) ∧ s' = s := by
  simp [otpmkBlown, passesBlown, otpmkWords]

theorem passesBurnOtpmk (passes : Passes (burnOtpmk hw) s s') :
    (∀ i, s'.regs (.otpmk i) = hw.takes (.otpmk i) (s.regs (.otpmk i)) (s.otpmk i)) ∧
      hw.svhesr s'.regs &&& sfpSvhesrOtpmkMask = 0 ∧ Keeps .otpmk s s' := by
  simp only [burnOtpmk, passesCons, passesNil, passesHamming] at passes
  obtain ⟨m, write, _, ⟨clear, same⟩, last⟩ := passes
  obtain rfl := last.trans same
  obtain rfl : s' = (otpmkWords s.otpmk).foldl (fun s p => s.out32 hw p.1 p.2) s := (Prod.mk.inj write).2.symm
  exact ⟨fun i => writtenAt (@familyApart 8 .otpmk s.otpmk fun _ _ => Reg.otpmk.inj) (memFamily .otpmk s.otpmk i) s, clear,
    writtenKeeps (@familyOwned 8 .otpmk s.otpmk .otpmk fun _ => rfl) s⟩

theorem keyFromHere {key : Fin 8 → Word} (wanted : wantedOtpmk hw hdr s.otpmk = some key)
    (blank : hdr.field flagOtpmkShift 0xF ∈ [progOtpmkMin, progOtpmkRandom, progOtpmkUser] → ∀ i, s.regs (.otpmk i) = 0)
    (minimal : hdr.field flagOtpmkShift 0xF = progOtpmkUserMin → s.otpmk 0 &&& otpmkMimBitsMask = otpmkMimBitsMask)
    (passes : Passes (burnOtpmk hw) {s with otpmk := key} s') :
    KeyBurnt hw hdr s s'.regs ∧ hw.svhesr s'.regs &&& sfpSvhesrOtpmkMask = 0 ∧ Keeps .otpmk s s' := by
  obtain ⟨taken, clear, keeps⟩ := passesBurnOtpmk passes
  refine ⟨⟨fun i => ?_, blank, minimal⟩, clear, ⟨keeps.regs⟩⟩
  rw [wanted]
  exact taken i

theorem passesProgOtpmk (passes : Passes (progOtpmk hw hdr) s s') : KeyBurnt hw hdr s s'.regs ∧
    (wantedOtpmk hw hdr s.otpmk ≠ none → hw.svhesr s'.regs &&& sfpSvhesrOtpmkMask = 0) ∧ Keeps .otpmk s s' := by
  simp only [progOtpmk] at passes
  generalize mode : hdr.field flagOtpmkShift 0xF = otpmkFlags at passes
  have here {key : Fin 8 → Word} (wanted : wantedOtpmk hw hdr s.otpmk = some key)
      (blank : otpmkFlags ∈ [progOtpmkMin, progOtpmkRandom, progOtpmkUser] → ∀ i, s.regs (.otpmk i) = 0)
      (minimal : otpmkFlags = progOtpmkUserMin → s.otpmk 0 &&& otpmkMimBitsMask = otpmkMimBitsMask)
      (burn : Passes (burnOtpmk hw) {s with otpmk := key} s') : KeyBurnt hw hdr s s'.regs ∧
        (wantedOtpmk hw hdr s.otpmk ≠ none → hw.svhesr s'.regs &&& sfpSvhesrOtpmkMask = 0) ∧ Keeps .otpmk s s' := by
    obtain ⟨burnt, clear, keeps⟩ := keyFromHere wanted (mode ▸ blank) (mode ▸ minimal) burn
    exact ⟨burnt, fun _ => clear, keeps⟩
  by_cases min : otpmkFlags = progOtpmkMin
  · simp only [if_pos min, passesCons, passesNil, passesOtpmkBlown, setOtpmk, passesAct] at passes
    obtain ⟨_, ⟨blank, rfl⟩, _, rfl, _, burn, rfl⟩ := passes
    exact here (by simp only [wantedOtpmk, mode, if_pos min]) (fun _ => blank) (fun same => absurd (min.symm.trans same) (by decide)) burn
  by_cases random : otpmkFlags = progOtpmkRandom
  · simp only [if_neg min, if_pos random, passesCons, passesNil, passesOtpmkBlown, setOtpmk, passesAct] at passes
    obtain ⟨_, ⟨blank, rfl⟩, _, rfl, _, burn, rfl⟩ := passes
    exact here (by simp only [wantedOtpmk, mode, if_neg min, if_pos random]) (fun _ => blank) (fun same => absurd (random.symm.trans same) (by decide)) burn
  by_cases user : otpmkFlags = progOtpmkUser
  · simp only [if_neg min, if_neg random, if_pos user, passesCons, passesNil, passesOtpmkBlown] at passes
    obtain ⟨_, ⟨blank, rfl⟩, _, burn, rfl⟩ := passes
    exact here (by simp only [wantedOtpmk, mode, if_neg min, if_neg random, if_pos user]) (fun _ => blank) (fun same => absurd (user.symm.trans same) (by decide))
      burn
  have unlisted : otpmkFlags ∉ [progOtpmkMin, progOtpmkRandom, progOtpmkUser] := by simp [min, random, user]
  by_cases randomMin : otpmkFlags = progOtpmkRandomMin
  · simp only [if_neg min, if_neg random, if_neg user, if_pos randomMin, passesCons, passesNil, setOtpmk, passesAct] at passes
    obtain ⟨_, rfl, _, burn, rfl⟩ := passes
    exact here (by simp only [wantedOtpmk, mode, if_neg min, if_neg random, if_neg user, if_pos randomMin])
      (fun listed => absurd listed unlisted) (fun same => absurd (randomMin.symm.trans same) (by decide)) burn
  by_cases userMin : otpmkFlags = progOtpmkUserMin
  · simp only [if_neg min, if_neg random, if_neg user, if_neg randomMin, if_pos userMin, passesCons, passesNil, passesCheck] at passes
    obtain ⟨_, ⟨minimal, rfl⟩, _, burn, rfl⟩ := passes
    rw [decide_eq_false_iff_not, not_not] at minimal
    exact here (by simp only [wantedOtpmk, mode, if_neg min, if_neg random, if_neg user, if_neg randomMin, if_pos userMin])
      (fun listed => absurd listed unlisted) (fun _ => minimal) burn
  · simp only [if_neg min, if_neg random, if_neg user, if_neg randomMin, if_neg userMin, passesAct] at passes
    have wanted : wantedOtpmk hw hdr s.otpmk = none := by
      simp only [wantedOtpmk, mode, if_neg min, if_neg random, if_neg user, if_neg randomMin, if_neg userMin]
    subst passes
    refine ⟨⟨fun i => ?_, fun listed => absurd (mode ▸ listed) unlisted, fun same => absurd (mode ▸ same) userMin⟩,
      fun wants => absurd wanted wants, keepsSelf _ _⟩
    rw [wanted]

theorem noKeyMode (set : hdr.field flagOtpmkShift progNoOtpmk = progNoOtpmk) :
    ∀ mode ∈ [progOtpmkMin, progOtpmkRandom, progOtpmkUser, progOtpmkRandomMin, progOtpmkUserMin],
      hdr.field flagOtpmkShift 0xF ≠ mode := by
  intro mode member same
  have nested : hdr.field flagOtpmkShift 0xF &&& progNoOtpmk = progNoOtpmk := by
    refine Eq.trans ?_ set
    rw [FuseHdr.field, BitVec.and_assoc]
    rfl
  have clear : [progOtpmkMin, progOtpmkRandom, progOtpmkUser, progOtpmkRandomMin, progOtpmkUserMin].all
      (fun mode => mode &&& progNoOtpmk ≠ progNoOtpmk) = true := by decide
  exact of_decide_eq_true (List.all_eq_true.mp clear mode member) (same ▸ nested)

theorem passesOtpmk (passes : Passes (given (hdr.field flagOtpmkShift progNoOtpmk ≠ progNoOtpmk) (progOtpmk hw hdr)) s s') :
    KeyBurnt hw hdr s s'.regs ∧
      (wantedOtpmk hw hdr s.otpmk ≠ none → hw.svhesr s'.regs &&& sfpSvhesrOtpmkMask = 0) ∧ Keeps .otpmk s s' := by
  rcases passesGiven.mp passes with ⟨_, program⟩ | ⟨off, rfl⟩
  · exact passesProgOtpmk program
  · rw [decide_eq_false_iff_not, not_not] at off
    have other := noKeyMode off
    have wanted : wantedOtpmk hw hdr s'.otpmk = none := by
      simp only [wantedOtpmk, if_neg (other progOtpmkMin (by decide)), if_neg (other progOtpmkRandom (by decide)),
        if_neg (other progOtpmkUser (by decide)), if_neg (other progOtpmkRandomMin (by decide)),
        if_neg (other progOtpmkUserMin (by decide))]
    refine ⟨⟨fun i => ?_, fun listed => absurd rfl (other _ ?_), fun same => absurd same (other _ (by decide))⟩,
      fun wants => absurd wanted wants, keepsSelf _ _⟩
    · rw [wanted]
    · exact List.mem_append_left [progOtpmkRandomMin, progOtpmkUserMin] listed

theorem mergeField {selected : Bool} {mask old new : Word} (merged : mergeOspr1 hdr selected mask old = some new) :
    Chosen selected (old &&& mask) (new &&& mask) (hdr.ospr1 &&& mask) ∧ new &&& ~~~mask = old &&& ~~~mask := by
  unfold mergeOspr1 at merged
  cases selected with
  | false =>
    obtain rfl := Option.some.inj merged
    exact ⟨rfl, rfl⟩
  | true =>
    rw [if_pos rfl] at merged
    split at merged
    · cases merged
    · rename_i clear
      rw [not_not] at clear
      obtain rfl := Option.some.inj merged
      refine ⟨chosenOn rfl ⟨clear, ?_⟩, ?_⟩
      · rw [BitVec.and_or_distrib_right, clear, BitVec.and_assoc, BitVec.and_self]
        exact BitVec.zero_or
      · rw [BitVec.and_or_distrib_right, BitVec.and_assoc hdr.ospr1, BitVec.and_not_self]
        simp

def ospr1RestMask : Word := ~~~(ospr1McMask ||| ospr1DbgLvlMask)

structure Ospr1Burnt (ver : SfpVersion) (hdr : FuseHdr) (old new : Word) : Prop where
  mc : Chosen (ver = .v34 && hdr.flag flagMcShift 1) (old &&& ospr1McMask) (new &&& ospr1McMask) (hdr.ospr1 &&& ospr1McMask)
  dbgLvl : Chosen (hdr.flag flagDbgLvlShift 1) (old &&& ospr1DbgLvlMask) (new &&& ospr1DbgLvlMask) (hdr.ospr1 &&& ospr1DbgLvlMask)
  rest : new &&& ospr1RestMask = old &&& ospr1RestMask

theorem keptPart {mask part old new : Word} (within : part = mask &&& part) (kept : new &&& mask = old &&& mask) :
    new &&& part = old &&& part := by
  rw [within, ← BitVec.and_assoc, kept, BitVec.and_assoc]

theorem mergedFields {old new : Word} (merged : mergedOspr1 ver hdr old = some new) : Ospr1Burnt ver hdr old new := by
  obtain ⟨middle, first, second⟩ := Option.bind_eq_some_iff.mp merged
  obtain ⟨mc, others⟩ := mergeField first
  obtain ⟨dbgLvl, others'⟩ := mergeField second
  have mcKept : new &&& ospr1McMask = middle &&& ospr1McMask := keptPart (by decide) others'
  have dbgKept : middle &&& ospr1DbgLvlMask = old &&& ospr1DbgLvlMask := keptPart (by decide) others
  have restKept : new &&& ospr1RestMask = middle &&& ospr1RestMask := keptPart (by decide) others'
  have restFirst : middle &&& ospr1RestMask = old &&& ospr1RestMask := keptPart (by decide) others
  exact ⟨mcKept ▸ mc, dbgKept ▸ dbgLvl, restKept.trans restFirst⟩

theorem ospr1Untouched {old : Word} (mc : hdr.flag flagMcShift 1 = false) (dbgLvl : hdr.flag flagDbgLvlShift 1 = false) :
    Ospr1Burnt ver hdr old old := by
  refine ⟨chosenOff ?_ rfl, chosenOff dbgLvl rfl, rfl⟩
  rw [mc, Bool.and_false]

theorem passesOspr1 (passes : Passes (given (hdr.flag flagMcShift 1 || hdr.flag flagDbgLvlShift 1) (progOspr1 hw ver hdr)) s s') :
    Ospr1Burnt ver hdr (s.regs .ospr1) (s'.regs .ospr1) ∧ Keeps .ospr1 s s' := by
  rcases passesGiven.mp passes with ⟨_, program⟩ | ⟨off, rfl⟩
  · unfold Passes progOspr1 at program
    split at program
    · cases program
    · rename_i ospr1 merged
      have burn : Passes (inOrder [writeWords hw [(Reg.ospr1, ospr1)], readBack [(Reg.ospr1, ospr1)] .ospr1Write]) s s' := program
      simp only [passesCons, passesNil, passesReadBack, writeWords, passesAct] at burn
      obtain ⟨_, rfl, _, ⟨taken, rfl⟩, rfl⟩ := burn
      have value := taken _ List.mem_cons_self
      refine ⟨?_, writtenKeeps (fun p member => by rw [List.mem_singleton.mp member]; rfl) s⟩
      rw [value]
      exact mergedFields merged
  · rw [Bool.or_eq_false_iff] at off
    exact ⟨ospr1Untouched off.1 off.2, keepsSelf _ _⟩

theorem passesSyscfg (passes : Passes (given (hdr.flag flagSyscfgShift 1) (progSyscfg hw ver hdr)) s s') :
    Chosen (hdr.flag flagSyscfgShift 1) (s.regs .ospr &&& ospr0ScMask ver) (s'.regs .ospr &&& ospr0ScMask ver)
        (hdr.sc &&& ospr0ScMask ver) ∧
      (hdr.flag flagSyscfgShift 1 = false → s'.regs .ospr = s.regs .ospr) ∧ Keeps .syscfg s s' := by
  rcases passesGiven.mp passes with ⟨on, program⟩ | ⟨off, rfl⟩
  · simp only [progSyscfg, passesCons, passesNil, passesCheck, writeWords, passesAct] at program
    obtain ⟨m, ⟨blank, rfl⟩, _, rfl, _, ⟨taken, rfl⟩, rfl⟩ := program
    rw [decide_eq_false_iff_not, not_not] at blank taken
    exact ⟨chosenOn on ⟨blank, taken⟩, fun off => absurd (off.symm.trans on) Bool.false_ne_true,
      writtenKeeps (fun p member => by rw [List.mem_singleton.mp member]; rfl) m⟩
  · exact ⟨chosenOff off rfl, fun _ => rfl, keepsSelf _ _⟩

structure Burnt (hw : Hardware) (ver : SfpVersion) (hdr : FuseHdr) (s : Sfp) (mirror : Reg → Word) : Prop where
  barkered : hdr.barker = barker
  unprotected : s.regs .ospr &&& 1 = 0
  srkh : ∀ i, Chosen (hdr.flag flagSrkhShift 1) (s.regs (.srkHash i)) (mirror (.srkHash i)) (hdr.srkh i)
  oemuid : ∀ i : Fin 5, Chosen (hdr.flag (flagOuid0Shift + i.val) 1) (s.regs (.oemUid i)) (mirror (.oemUid i)) (hdr.oemUid i)
  dcv : ∀ i, Chosen (hdr.flag flagDcv0Shift 3) (s.regs (.dcv i)) (mirror (.dcv i)) (hdr.dcv i)
  drv : ∀ i, Chosen (hdr.flag flagDrv0Shift 3) (s.regs (.drv i)) (mirror (.drv i)) (hw.takes (.drv i) 0 (hdr.drv i))
  drvClear : hdr.flag flagDrv0Shift 3 = true → HammingClear hw sfpSvhesrDrvMask (partOf · = .drv) mirror
  key : KeyBurnt hw hdr s mirror
  keyClear : wantedOtpmk hw hdr s.otpmk ≠ none → HammingClear hw sfpSvhesrOtpmkMask (partOf · = .otpmk) mirror
  ospr1 : Ospr1Burnt ver hdr (s.regs .ospr1) (mirror .ospr1)
  syscfg : Chosen (hdr.flag flagSyscfgShift 1) (s.regs .ospr &&& ospr0ScMask ver) (mirror .ospr &&& ospr0ScMask ver)
    (hdr.sc &&& ospr0ScMask ver)
  ospr : hdr.flag flagSyscfgShift 1 = false → mirror .ospr = s.regs .ospr
  fixed : ∀ reg, partOf reg = .fixed → mirror reg = s.regs reg

theorem keyMoved {m : Sfp} {middle mirror : Reg → Word} (burnt : KeyBurnt hw hdr m middle) (key : m.otpmk = s.otpmk)
    (before : ∀ reg, partOf reg = .otpmk → m.regs reg = s.regs reg)
    (after : ∀ reg, partOf reg = .otpmk → mirror reg = middle reg) : KeyBurnt hw hdr s mirror := by
  refine ⟨fun i => ?_, fun listed i => ?_, fun userMin => ?_⟩
  · rw [after _ rfl, burnt.taken i, key, before _ rfl]
  · rw [← before _ rfl]
    exact burnt.blank listed i
  · rw [← key]
    exact burnt.minimal userMin

theorem passesAll (passes : Passes (progAll hw ver hdr) s s') (barkered : hdr.barker = barker)
    (unprotected : s.regs .ospr &&& 1 = 0) : Burnt hw ver hdr s s'.regs := by
  simp only [progAll, passesCons, passesNil] at passes
  obtain ⟨s₁, srkhRan, s₂, oemuidRan, s₃, debugRan, s₄, otpmkRan, s₅, ospr1Ran, s₆, syscfgRan, rfl⟩ := passes
  obtain ⟨srkh, k₁, key₁⟩ := passesSrkh srkhRan
  obtain ⟨oemuid, k₂, key₂⟩ := passesOemuid oemuidRan
  obtain ⟨d, ⟨dcv, k₃, key₃⟩, drv, drvClear, k₄, key₄⟩ := passesDebug debugRan
  obtain ⟨key, keyClear, k₅⟩ := passesOtpmk otpmkRan
  obtain ⟨ospr1, k₆⟩ := passesOspr1 ospr1Ran
  obtain ⟨syscfg, ospr, k₇⟩ := passesSyscfg syscfgRan
  have a₆ := keepsTrans (keepsAll k₆) (keepsAll k₇)
  have a₅ := keepsTrans (keepsAll k₅) a₆
  have a₄ := keepsTrans (keepsAll k₄) a₅
  have a₃ := keepsTrans (keepsAll k₃) a₄
  have a₂ := keepsTrans (keepsAll k₂) a₃
  have b₂ := keepsTrans (keepsAll k₁) (keepsAll k₂)
  have b₃ := keepsTrans b₂ (keepsAll k₃)
  have b₄ := keepsTrans b₃ (keepsAll k₄)
  have b₅ := keepsTrans b₄ (keepsAll k₅)
  have b₆ := keepsTrans b₅ (keepsAll k₆)
  have srkhAfter (reg : Reg) (own : partOf reg = .srkh) : s'.regs reg = s₁.regs reg := a₂ own (by decide)
  have oemuidBefore (reg : Reg) (own : partOf reg = .oemuid) : s₁.regs reg = s.regs reg := keepsOther k₁ own (by decide)
  have oemuidAfter (reg : Reg) (own : partOf reg = .oemuid) : s'.regs reg = s₂.regs reg := a₃ own (by decide)
  have dcvBefore (reg : Reg) (own : partOf reg = .dcv) : s₂.regs reg = s.regs reg := b₂ own (by decide)
  have dcvAfter (reg : Reg) (own : partOf reg = .dcv) : s'.regs reg = d.regs reg := a₄ own (by decide)
  have drvBefore (reg : Reg) (own : partOf reg = .drv) : d.regs reg = s.regs reg := b₃ own (by decide)
  have drvAfter (reg : Reg) (own : partOf reg = .drv) : s'.regs reg = s₃.regs reg := a₅ own (by decide)
  have otpmkBefore (reg : Reg) (own : partOf reg = .otpmk) : s₃.regs reg = s.regs reg := b₄ own (by decide)
  have otpmkAfter (reg : Reg) (own : partOf reg = .otpmk) : s'.regs reg = s₄.regs reg := a₆ own (by decide)
  have ospr1Before : s₄.regs .ospr1 = s.regs .ospr1 := b₅ rfl (by decide)
  have ospr1After : s'.regs .ospr1 = s₅.regs .ospr1 := k₇.regs _ (by decide)
  have osprBefore : s₅.regs .ospr = s.regs .ospr := b₆ rfl (by decide)
  have fixed (reg : Reg) (own : partOf reg = .fixed) : s'.regs reg = s.regs reg :=
    keepsTrans (keepsAll k₁) a₂ own (by decide)
  have keyBefore : s₃.otpmk = s.otpmk := by rw [key₄, key₃, key₂, key₁]
  constructor
  · exact barkered
  · exact unprotected
  · exact fun i => srkhAfter (.srkHash i) rfl ▸ srkh i
  · exact fun i => oemuidAfter (.oemUid i) rfl ▸ oemuidBefore (.oemUid i) rfl ▸ oemuid i
  · exact fun i => dcvAfter (.dcv i) rfl ▸ dcvBefore (.dcv i) rfl ▸ dcv i
  · exact fun i => drvAfter (.drv i) rfl ▸ drvBefore (.drv i) rfl ▸ drv i
  · exact fun on => ⟨s₃.regs, drvClear on, fun reg own => (drvAfter reg own).symm⟩
  · exact keyMoved key keyBefore otpmkBefore otpmkAfter
  · exact fun wants => ⟨s₄.regs, keyClear (keyBefore ▸ wants), fun reg own => (otpmkAfter reg own).symm⟩
  · exact ospr1After ▸ ospr1Before ▸ ospr1
  · exact osprBefore ▸ syscfg
  · exact fun off => (ospr off).trans osprBefore
  · exact fixed

theorem keepingWrite (words : List (Reg × Word)) : Keeping Sfp.issued (writeWords hw words) := keepingAct fun _ => writtenIssued _

theorem keepingBurn (words : List (Reg × Word)) (e : ErrorCode) {last : Program} (kept : Keeping Sfp.issued last) :
    Keeping Sfp.issued (inOrder [blownCheck words e, writeWords hw words, last]) := by
  refine keepingInOrder ?_
  simp only [List.forall_mem_cons]
  exact ⟨keepingCheck _ _, keepingWrite words, kept, List.forall_mem_nil _⟩

theorem keepingBurnOtpmk : Keeping Sfp.issued (burnOtpmk hw) := by
  refine keepingInOrder ?_
  simp only [List.forall_mem_cons]
  exact ⟨fun s => writtenIssued s, keepingCheck _ _, List.forall_mem_nil _⟩

theorem keepingOtpmk : Keeping Sfp.issued (progOtpmk hw hdr) := by
  have blown : Keeping Sfp.issued otpmkBlown := keepingCheck _ _
  have set (key : Fin 8 → Word) : Keeping Sfp.issued (setOtpmk key) := keepingAct fun _ => rfl
  have checked (fails : Sfp → Bool) : Keeping Sfp.issued (check fails ErrorCode.otpmkUserMin) := keepingCheck _ _
  have burn := @keepingBurnOtpmk hw
  unfold progOtpmk
  dsimp only
  split_ifs
  · exact keepingInOrder (by simp [blown, set, burn])
  · exact keepingInOrder (by simp [blown, set, burn])
  · exact keepingInOrder (by simp [blown, burn])
  · exact keepingInOrder (by simp [set, burn])
  · exact keepingInOrder (by simp only [List.forall_mem_cons, checked, burn]; simp)
  · exact keepingAct fun _ => rfl

theorem keepingOspr1 : Keeping Sfp.issued (progOspr1 hw ver hdr) := by
  intro s
  unfold progOspr1
  split
  · rfl
  · rename_i ospr1 _
    have back : Keeping Sfp.issued (readBack [(.ospr1, ospr1)] .ospr1Write) := keepingCheck _ _
    exact keepingInOrder (by simp [keepingWrite, back]) s

theorem keepingAll : Keeping Sfp.issued (progAll hw ver hdr) := by
  have oemuid : Keeping Sfp.issued (progOemuid hw hdr) := by
    refine keepingInOrder fun p member => ?_
    obtain ⟨i, _, rfl⟩ := List.mem_map.mp member
    exact keepingGiven _ (keepingBurn _ _ (keepingCheck _ _))
  have debug : Keeping Sfp.issued (progDebug hw hdr) := by
    refine keepingInOrder ?_
    simp only [List.forall_mem_cons]
    exact ⟨keepingGiven _ (keepingBurn _ _ (keepingCheck _ _)), keepingGiven _ (keepingBurn _ _ (keepingCheck _ _)),
      List.forall_mem_nil _⟩
  have syscfg : Keeping Sfp.issued (progSyscfg hw ver hdr) := by
    refine keepingInOrder ?_
    simp only [List.forall_mem_cons]
    exact ⟨keepingCheck _ _, keepingWrite _, keepingCheck _ _, List.forall_mem_nil _⟩
  refine keepingInOrder ?_
  simp only [List.forall_mem_cons]
  exact ⟨keepingGiven _ (keepingBurn _ _ (keepingCheck _ _)), keepingGiven _ oemuid, keepingGiven _ debug,
    keepingGiven _ keepingOtpmk, keepingGiven _ keepingOspr1, keepingGiven _ syscfg, List.forall_mem_nil _⟩

theorem provisionBurns (hw : Hardware) (ver : SfpVersion) (hdr : FuseHdr) (fuel : Nat) (s : Sfp) :
    (provisionFuses hw ver hdr fuel s).sfp.issued = s.issued ∨
      ∃ mirror, (provisionFuses hw ver hdr fuel s).sfp.issued = s.issued ++ [mirror] ∧ Burnt hw ver hdr s mirror ∧
        (provisionFuses hw ver hdr fuel s).scratch4 ∈ [none, some .progfbCmd] := by
  have povdd : given (hdr.flag flagPovddShift 1) progGpioPovdd s = (none, s) := by
    unfold given
    split <;> rfl
  unfold provisionFuses
  by_cases headed : hdr.barker = barker
  · by_cases unprotected : s.regs .ospr &&& 1 = 0
    · simp only [headed, povdd, unprotected, ne_eq, not_true_eq_false, if_false]
      have quiet := @keepingAll hw ver hdr s
      cases ran : progAll hw ver hdr s with
      | mk result s' =>
        rw [ran] at quiet
        cases result with
        | some e => exact Or.inl quiet
        | none =>
          have burnt := passesAll ran headed unprotected
          have issued : s'.issued ++ [s'.regs] = s.issued ++ [s'.regs] := congrArg (· ++ [s'.regs]) quiet
          refine Or.inr ⟨s'.regs, ?_⟩
          dsimp only
          split
          · exact ⟨issued, burnt, List.mem_cons_self⟩
          · split
            · exact ⟨issued, burnt, List.mem_cons_of_mem _ List.mem_cons_self⟩
            · exact ⟨issued, burnt, List.mem_cons_self⟩
    · refine Or.inl ?_
      simp only [headed, povdd, ne_eq, not_true_eq_false, if_false, unprotected, not_false_eq_true, if_true]
  · refine Or.inl ?_
    simp only [headed, ne_eq, not_false_eq_true, if_true]

def plainHardware : Hardware := ⟨fun _ _ value => value, fun _ => 0, fun _ => 0, 0⟩

def deafHardware : Hardware :=
  ⟨fun reg old value => if partOf reg = .drv then old else value, fun _ => 0, fun _ => 0, 0⟩

def headerOf (flags : Word) : FuseHdr := ⟨barker, flags, fun _ => 1, fun _ => 1, fun _ => 5, fun _ => 6, 0x00070007, 0x00000004⟩

def blankSfp : Sfp := ⟨fun reg => if reg = .ospr then 0x00000002 else 0, fun _ => 0, []⟩

def Precise (ver : SfpVersion) (hdr : FuseHdr) (s : Sfp) (mirror : Reg → Word) : Prop :=
  (∀ i : Fin 2, mirror (.dcv i) = if hdr.flag (flagDcv0Shift + i.val) 1 then hdr.dcv i else s.regs (.dcv i)) ∧
  (∀ i : Fin 2, mirror (.drv i) = if hdr.flag (flagDrv0Shift + i.val) 1 then hdr.drv i else s.regs (.drv i)) ∧
  (mirror .ospr = if hdr.flag flagSyscfgShift 1 then s.regs .ospr &&& ~~~ospr0ScMask ver ||| hdr.sc &&& ospr0ScMask ver
    else s.regs .ospr) ∧
  mirror .ospr1 &&& ospr1McMask = if hdr.flag flagMcShift 1 then hdr.ospr1 &&& ospr1McMask else s.regs .ospr1 &&& ospr1McMask

instance (ver : SfpVersion) (hdr : FuseHdr) (s : Sfp) (mirror : Reg → Word) : Decidable (Precise ver hdr s mirror) :=
  inferInstanceAs (Decidable (_ ∧ _))

theorem fieldsMisplaced :
    (∃ mirror ∈ (provisionFuses plainHardware .v34 (headerOf 0x80010) 1 blankSfp).sfp.issued,
      ¬Precise .v34 (headerOf 0x80010) blankSfp mirror) ∧
    (∃ mirror ∈ (provisionFuses deafHardware .v34 (headerOf 0x800C0) 1 blankSfp).sfp.issued,
      ¬Precise .v34 (headerOf 0x800C0) blankSfp mirror) ∧
    (∃ mirror ∈ (provisionFuses plainHardware .v34 (headerOf 0x80002) 1 blankSfp).sfp.issued,
      ¬Precise .v34 (headerOf 0x80002) blankSfp mirror) ∧
    ∃ mirror ∈ (provisionFuses plainHardware .v32 (headerOf 0x80008) 1 blankSfp).sfp.issued,
      ¬Precise .v32 (headerOf 0x80008) blankSfp mirror := by
  decide

end Flexbuild.Fuse
