import Mathlib
import Flexbuild.CmdifServer

/-! The frame descriptor of an asynchronous command and of its response. The hardware treats the
word `FLC` as a number; the fields of `u_flc.cmd` are bytes of the memory that holds it, so that a
little endian processor swaps the word on its way in and out. -/
namespace Flexbuild.Cmdif

inductive Endian where
  | big
  | little
  deriving DecidableEq, Repr

def swapUint16 (val : BitVec 16) : BitVec 16 := val.extractLsb' 0 8 ++ val.extractLsb' 8 8

def swapUint64 (val : BitVec 64) : BitVec 64 :=
  val.extractLsb' 0 8 ++ val.extractLsb' 8 8 ++ val.extractLsb' 16 8 ++ val.extractLsb' 24 8 ++
    val.extractLsb' 32 8 ++ val.extractLsb' 40 8 ++ val.extractLsb' 48 8 ++ val.extractLsb' 56 8

def cpuToBe16 : Endian → BitVec 16 → BitVec 16
  | .big, val => val
  | .little, val => swapUint16 val

def cpuToBe64 : Endian → BitVec 64 → BitVec 64
  | .big, val => val
  | .little, val => swapUint64 val

-- `CPU_TO_SRV16`: the conversion to the byte order of the server the client is built for.
def cpuToSrv16 (cpu srv : Endian) (val : BitVec 16) : BitVec 16 :=
  if cpu = srv then val else swapUint16 val

structure Flc where
  authId : BitVec 16
  devH : BitVec 8
  err : BitVec 8
  cmid : BitVec 16
  epid : BitVec 16
  deriving DecidableEq, Repr

-- The union read as `u_flc.flc`.
def Flc.word : Endian → Flc → BitVec 64
  | .big, f => f.authId ++ f.devH ++ f.err ++ f.cmid ++ f.epid
  | .little, f => f.epid ++ f.cmid ++ f.err ++ f.devH ++ f.authId

def Flc.ofWord : Endian → BitVec 64 → Flc
  | .big, x => ⟨x.extractLsb' 48 16, x.extractLsb' 40 8, x.extractLsb' 32 8, x.extractLsb' 16 16,
      x.extractLsb' 0 16⟩
  | .little, x => ⟨x.extractLsb' 0 16, x.extractLsb' 16 8, x.extractLsb' 24 8,
      x.extractLsb' 32 16, x.extractLsb' 48 16⟩

structure Fd where
  flc : BitVec 64
  frc : BitVec 32
  deriving DecidableEq, Repr

def Fd.cmd (cpu : Endian) (fd : Fd) : Flc := Flc.ofWord cpu (cpuToBe64 cpu fd.flc)

def cmdifEpid : BitVec 16 := 2

def cmdifCmdFdSet (cpu srv : Endian) (authId cmd : BitVec 16) (dev : BitVec 64) : Fd where
  flc := cpuToBe64 cpu (Flc.word cpu
    { authId := authId
      devH := ((dev &&& 0xFF00000000) >>> 32).setWidth 8
      err := 0
      cmid := cpuToSrv16 cpu srv cmd
      epid := cpuToBe16 cpu cmdifEpid })
  frc := dev.setWidth 32

def Fd.devGet (cpu : Endian) (fd : Fd) : BitVec 64 :=
  fd.frc.setWidth 64 ||| (fd.cmd cpu).devH.setWidth 64 <<< 32

def Fd.cmdId (cpu srv : Endian) (fd : Fd) : BitVec 16 := cpuToSrv16 cpu srv (fd.cmd cpu).cmid

def errorMask : BitVec 64 := 0x000000FF00000000
def errorOff : Nat := 32

def cmdifFdSend (flc : BitVec 64) (cbErr : BitVec 32) : BitVec 64 :=
  (flc &&& ~~~errorMask) ||| (cbErr.signExtend 64 <<< errorOff)

def Fd.cfd (cpu : Endian) (fd : Fd) (dSize dAddr : Nat) : Cfd :=
  ⟨(fd.cmd cpu).authId.toNat, (fd.cmd cpu).devH.toNat, (fd.cmd cpu).err.toNat,
    (fd.cmd cpu).cmid.toNat, (fd.cmd cpu).epid.toNat, fd.frc.toNat, dSize, dAddr⟩

def Cfd.flc (cpu : Endian) (cfd : Cfd) : BitVec 64 :=
  cpuToBe64 cpu (Flc.word cpu
    { authId := BitVec.ofNat 16 cfd.authId
      devH := BitVec.ofNat 8 cfd.devH
      err := BitVec.ofNat 8 cfd.err
      cmid := BitVec.ofNat 16 cfd.cmid
      epid := BitVec.ofNat 16 cfd.epid })

def withErr (cpu : Endian) (flc : BitVec 64) (err : BitVec 8) : BitVec 64 :=
  cpuToBe64 cpu (Flc.word cpu { Flc.ofWord cpu (cpuToBe64 cpu flc) with err := err })

section Bits

variable (flc : BitVec 64) {i : Nat}

theorem ofWordWord (cpu : Endian) (f : Flc) : Flc.ofWord cpu (f.word cpu) = f := by
  cases f with
  | mk authId devH err cmid epid =>
    cases cpu <;> simp only [Flc.ofWord, Flc.word, Flc.mk.injEq] <;>
      refine ⟨?_, ?_, ?_, ?_, ?_⟩ <;> ext j hj <;> simp [BitVec.getElem_extractLsb'] <;> grind

theorem swapUint64Bit (hi : i < 64) :
    (swapUint64 flc).getLsbD i = flc.getLsbD (8 * (7 - i / 8) + i % 8) := by
  simp only [swapUint64, BitVec.getLsbD_append, BitVec.getLsbD_extractLsb']
  grind

theorem swapUint64Twice : swapUint64 (swapUint64 flc) = flc := by
  apply BitVec.eq_of_getLsbD_eq
  intro j hj
  rw [swapUint64Bit _ hj, swapUint64Bit _ (by omega)]
  congr 1
  omega

theorem swapUint16Twice (val : BitVec 16) : swapUint16 (swapUint16 val) = val := by
  apply BitVec.eq_of_getLsbD_eq
  intro j hj
  simp only [swapUint16, BitVec.getLsbD_append, BitVec.getLsbD_extractLsb']
  grind

theorem cpuToBe64Twice (cpu : Endian) : cpuToBe64 cpu (cpuToBe64 cpu flc) = flc := by
  cases cpu with
  | big => rfl
  | little => exact swapUint64Twice flc

theorem cpuToSrv16Twice (cpu srv : Endian) (val : BitVec 16) :
    cpuToSrv16 cpu srv (cpuToSrv16 cpu srv val) = val := by
  unfold cpuToSrv16
  split
  · rfl
  · exact swapUint16Twice val

theorem withErrBit (cpu : Endian) (err : BitVec 8) (hi : i < 64) :
    (withErr cpu flc err).getLsbD i =
      if 32 ≤ i ∧ i < 40 then err.getLsbD (i - 32) else flc.getLsbD i := by
  cases cpu with
  | big =>
    simp only [withErr, cpuToBe64, Flc.word, Flc.ofWord, BitVec.getLsbD_append,
      BitVec.getLsbD_extractLsb']
    grind
  | little =>
    simp only [withErr, cpuToBe64]
    rw [swapUint64Bit _ hi]
    simp only [Flc.word, Flc.ofWord, BitVec.getLsbD_append, BitVec.getLsbD_extractLsb']
    have same : flc.getLsbD i =
        (swapUint64 flc).getLsbD (8 * (7 - i / 8) + i % 8) := by
      rw [swapUint64Bit _ (by omega)]
      congr 1
      omega
    rw [same]
    grind

theorem withErrSame (cpu lib : Endian) (err : BitVec 8) :
    withErr cpu flc err = withErr lib flc err := by
  apply BitVec.eq_of_getLsbD_eq
  intro j hj
  rw [withErrBit flc cpu err hj, withErrBit flc lib err hj]

theorem errorMaskBit (hi : i < 64) : errorMask.getLsbD i = decide (32 ≤ i ∧ i < 40) := by
  have all : ∀ j : Fin 64, errorMask.getLsbD j.val = decide (32 ≤ j.val ∧ j.val < 40) := by decide
  exact all ⟨i, hi⟩

theorem cmdifFdSendBit (cbErr : BitVec 32) (hi : i < 64) :
    (cmdifFdSend flc cbErr).getLsbD i =
      if i < 32 then flc.getLsbD i
      else if i < 40 then cbErr.getLsbD (i - 32)
      else (flc.getLsbD i || cbErr.getLsbD (i - 32)) := by
  simp only [cmdifFdSend, errorOff, BitVec.getLsbD_or, BitVec.getLsbD_and, BitVec.getLsbD_not,
    BitVec.getLsbD_shiftLeft, BitVec.getLsbD_signExtend, errorMaskBit hi]
  grind

theorem cmdifFdSendExact (cpu : Endian) (cbErr : BitVec 32) :
    cmdifFdSend flc cbErr = withErr cpu flc (cbErr.setWidth 8) ↔
      cbErr.extractLsb' 8 24 &&& ~~~flc.extractLsb' 40 24 = 0 := by
  constructor
  · intro same
    apply BitVec.eq_of_getLsbD_eq
    intro j hj
    have here := congrArg (fun x => x.getLsbD (j + 40)) same
    rw [cmdifFdSendBit flc cbErr (by omega), withErrBit flc cpu _ (by omega)] at here
    simp only [BitVec.getLsbD_and, BitVec.getLsbD_not, BitVec.getLsbD_extractLsb']
    grind
  · intro within
    apply BitVec.eq_of_getLsbD_eq
    intro j hj
    rw [cmdifFdSendBit flc cbErr hj, withErrBit flc cpu _ hj]
    have here := congrArg (fun x => x.getLsbD (j - 40)) within
    simp only [BitVec.getLsbD_and, BitVec.getLsbD_not, BitVec.getLsbD_extractLsb',
      BitVec.getLsbD_setWidth] at here ⊢
    grind

end Bits

section Fields

variable (cpu srv : Endian) (authId cmd : BitVec 16) (dev : BitVec 64)

theorem cmdWithErr (flc : BitVec 64) (frc : BitVec 32) (err : BitVec 8) :
    Fd.cmd cpu ⟨withErr cpu flc err, frc⟩ = { Fd.cmd cpu ⟨flc, frc⟩ with err := err } := by
  unfold Fd.cmd withErr
  rw [cpuToBe64Twice, ofWordWord]

theorem cmdOfRequest : (cmdifCmdFdSet cpu srv authId cmd dev).cmd cpu =
    { authId := authId
      devH := ((dev &&& 0xFF00000000) >>> 32).setWidth 8
      err := 0
      cmid := cpuToSrv16 cpu srv cmd
      epid := cpuToBe16 cpu cmdifEpid } := by
  unfold Fd.cmd cmdifCmdFdSet
  rw [cpuToBe64Twice, ofWordWord]

theorem devOfParts {dev : BitVec 64} (small : dev.toNat < 2 ^ 40) :
    (dev.setWidth 32).setWidth 64 |||
      (((dev &&& 0xFF00000000) >>> 32).setWidth 8).setWidth 64 <<< 32 = dev := by
  have high : ∀ j, 40 ≤ j → dev.getLsbD j = false := by
    intro j far
    exact Nat.testBit_lt_two_pow (small.trans_le (Nat.pow_le_pow_right (by decide) far))
  have mask : ∀ j : Fin 64, (0xFF00000000 : BitVec 64).getLsbD j.val =
      decide (32 ≤ j.val ∧ j.val < 40) := by decide
  apply BitVec.eq_of_getLsbD_eq
  intro j hj
  have maskHere := mask ⟨j, hj⟩
  simp only at maskHere
  have highHere := high j
  simp only [BitVec.getLsbD_or, BitVec.getLsbD_setWidth, BitVec.getLsbD_shiftLeft,
    BitVec.getLsbD_ushiftRight, BitVec.getLsbD_and]
  by_cases low : j < 32
  · simp [low]
    omega
  · rw [show 32 + (j - 32) = j by omega, maskHere]
    grind

end Fields

def libraryAnswer (lib : Endian) (s : Server) (fd : Fd) (dSize dAddr : Nat) (cbErr : BitVec 32) :
    Option (BitVec 64) :=
  match (s.cmd (fd.cfd lib dSize dAddr) true cbErr.toInt).answer with
  | .error _ => none
  | .ok response => response.cfdOut.map (Cfd.flc lib)

theorem int8OfNat (cbErr : BitVec 32) :
    BitVec.ofNat 8 (cbErr.toInt % 2 ^ 8).toNat = cbErr.setWidth 8 := by
  apply BitVec.eq_of_toNat_eq
  rw [BitVec.toNat_ofNat, BitVec.toNat_setWidth]
  have bound := cbErr.isLt
  have cond := BitVec.toInt_eq_toNat_cond cbErr
  split at cond <;> omega

theorem cmdOut {s : Server} {cfd out : Cfd} {wantsOut : Bool} {given : Int} {response : Response}
    (good : (s.cmd cfd wantsOut given).answer = .ok response) (sent : response.cfdOut = some out) :
    out = { cfd with err := ((s.ctrlCb (s.mId cfd.authId)).answer given % 2 ^ 8).toNat } := by
  unfold Server.cmd at good
  split at good
  · cases good
  · split at good
    · cases good
    · cases good
      dsimp only at sent
      split at sent
      · exact (Option.some.inj sent).symm
      · cases sent

theorem libraryAnswerWord {lib : Endian} {s : Server} {fd : Fd} {dSize dAddr : Nat}
    {cbErr : BitVec 32} {registration entry : Nat}
    (control : s.ctrlCb (s.mId (fd.cmd lib).authId.toNat) = .own registration entry) :
    ∀ word ∈ libraryAnswer lib s fd dSize dAddr cbErr, word = withErr lib fd.flc (cbErr.setWidth 8) := by
  intro word answered
  unfold libraryAnswer at answered
  split at answered
  · cases answered
  · rename_i response good
    obtain ⟨out, sent, rfl⟩ := Option.map_eq_some_iff.mp answered
    rw [cmdOut good sent]
    simp only [Fd.cfd, control, Cfd.flc, Callback.answer, BitVec.ofNat_toNat, BitVec.setWidth_eq,
      int8OfNat]
    rfl

structure Answered (cpu srv : Endian) (authId cmd : BitVec 16) (dev : BitVec 64)
    (cbErr : BitVec 32) (request : Fd) (flc : BitVec 64) : Prop where
  error : (flc &&& errorMask) >>> errorOff = cbErr.setWidth 64 &&& 0xFF
  others : flc &&& ~~~errorMask = request.flc &&& ~~~errorMask
  library : ∀ (lib : Endian) (s : Server) (dSize dAddr registration entry : Nat),
    s.ctrlCb (s.mId (request.cmd lib).authId.toNat) = .own registration entry →
      ∀ word ∈ libraryAnswer lib s request dSize dAddr cbErr, flc = word
  devGet : Fd.devGet cpu ⟨flc, request.frc⟩ = dev
  authId : (Fd.cmd cpu ⟨flc, request.frc⟩).authId = authId
  cmdId : Fd.cmdId cpu srv ⟨flc, request.frc⟩ = cmd
  err : (Fd.cmd cpu ⟨flc, request.frc⟩).err = cbErr.setWidth 8

theorem withErrAnswers (cpu srv : Endian) (authId cmd : BitVec 16) (dev : BitVec 64)
    (cbErr : BitVec 32) (small : dev.toNat < 2 ^ 40) :
    Answered cpu srv authId cmd dev cbErr (cmdifCmdFdSet cpu srv authId cmd dev)
      (withErr cpu (cmdifCmdFdSet cpu srv authId cmd dev).flc (cbErr.setWidth 8)) := by
  have fields := cmdWithErr cpu (cmdifCmdFdSet cpu srv authId cmd dev).flc
    (cmdifCmdFdSet cpu srv authId cmd dev).frc (cbErr.setWidth 8)
  have request := cmdOfRequest cpu srv authId cmd dev
  refine ⟨?_, ?_, ?_, ?_, ?_, ?_, ?_⟩
  · apply BitVec.eq_of_getLsbD_eq
    intro j hj
    simp only [errorOff, BitVec.getLsbD_ushiftRight, BitVec.getLsbD_and, BitVec.getLsbD_setWidth]
    have byte : ∀ j : Fin 64, (0xFF : BitVec 64).getLsbD j.val = decide (j.val < 8) := by decide
    have byteHere := byte ⟨j, hj⟩
    simp only at byteHere
    rw [byteHere]
    by_cases inside : 32 + j < 64
    · rw [withErrBit _ cpu _ inside, errorMaskBit inside]
      grind
    · rw [BitVec.getLsbD_of_ge _ _ (by omega)]
      grind
  · apply BitVec.eq_of_getLsbD_eq
    intro j hj
    simp only [BitVec.getLsbD_and, BitVec.getLsbD_not, withErrBit _ cpu _ hj, errorMaskBit hj]
    grind
  · intro lib s dSize dAddr registration entry control word answered
    rw [libraryAnswerWord control word answered, withErrSame]
  · rw [Fd.devGet, fields, request]
    exact devOfParts small
  · rw [fields, request]
  · rw [Fd.cmdId, fields, request]
    exact cpuToSrv16Twice cpu srv cmd
  · rw [fields]

theorem fdSendAnswers (cpu srv : Endian) (authId cmd : BitVec 16) (dev : BitVec 64)
    (cbErr : BitVec 32) (small : dev.toNat < 2 ^ 40) :
    Answered cpu srv authId cmd dev cbErr (cmdifCmdFdSet cpu srv authId cmd dev)
        (cmdifFdSend (cmdifCmdFdSet cpu srv authId cmd dev).flc cbErr) ↔
      cbErr.extractLsb' 8 24 &&&
        ~~~(cmdifCmdFdSet cpu srv authId cmd dev).flc.extractLsb' 40 24 = 0 := by
  rw [← cmdifFdSendExact _ cpu]
  constructor
  · intro answered
    apply BitVec.eq_of_getLsbD_eq
    intro j hj
    have exact_ := withErrAnswers cpu srv authId cmd dev cbErr small
    by_cases inside : 32 ≤ j ∧ j < 40
    · rw [cmdifFdSendBit _ _ hj, withErrBit _ cpu _ hj]
      grind
    · have here := congrArg (fun x => x.getLsbD j) (answered.others.trans exact_.others.symm)
      simp only [BitVec.getLsbD_and, BitVec.getLsbD_not, errorMaskBit hj] at here
      grind
  · intro same
    rw [same]
    exact withErrAnswers cpu srv authId cmd dev cbErr small

theorem fdSendAnswersSmall : (0x1234 : BitVec 64).toNat < 2 ^ 40 ∧
    (Answered .little .big 5 0x2001 0x1234 0xFFFFFFFF (cmdifCmdFdSet .little .big 5 0x2001 0x1234)
        (cmdifFdSend (cmdifCmdFdSet .little .big 5 0x2001 0x1234).flc 0xFFFFFFFF) ↔
      (0xFFFFFFFF : BitVec 32).extractLsb' 8 24 &&&
        ~~~(cmdifCmdFdSet .little .big 5 0x2001 0x1234).flc.extractLsb' 40 24 = 0) :=
  ⟨by decide, fdSendAnswers .little .big 5 0x2001 0x1234 0xFFFFFFFF (by decide)⟩

theorem fdSendNegative : ¬ ∀ (cpu srv : Endian) (authId cmd : BitVec 16) (dev : BitVec 64)
    (cbErr : BitVec 32), dev.toNat < 2 ^ 40 →
      Answered cpu srv authId cmd dev cbErr (cmdifCmdFdSet cpu srv authId cmd dev)
        (cmdifFdSend (cmdifCmdFdSet cpu srv authId cmd dev).flc cbErr) := by
  intro every
  have session := (every .little .big 5 0x2001 0x1234 0xFFFFFFFF (by decide)).authId
  revert session
  decide

end Flexbuild.Cmdif
