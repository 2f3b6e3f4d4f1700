import Flexbuild.PbiCopyRuns
import Flexbuild.RcwCrc

/-! The rewriting of an RCW/PBI file: the words of the RCW with two bits set, what the input has up
to the first stop word, the new commands, the stop command with the CRC of all that was written,
and the appended images. The other half is what the file is to be made of. -/
namespace Flexbuild.PbiCreation
open ByteMemory (Byte)
open Fields (fullBytes)
open PbiCopy (byteSwap32 fwriteWord CpCmd addCpyCmd byteCount)

def numRcwWord : Nat := 18
def sbEnBootHoWord : Nat := 8
def sbEnMask : BitVec 32 := 0x00200000
def bootHoMask : BitVec 32 := 0x00400000
def crcStopCmdArm : BitVec 32 := 0x08610040
def crcStopCmdPowerpc : BitVec 32 := 0x08138040
def bootptrAddr : BitVec 32 := 0x09ee0200
def pbiCrcPolynomial : BitVec 32 := 0x04c11db7
def apndImgOff : BitVec 32 := 0x1000
def bufferSize : Nat := 1024

structure ApFile where
  offset : BitVec 32
  image : List Byte

structure Config where
  sbenFlag : Bool
  boothoFlag : Bool
  sbEn : Bool
  bootHo : Bool
  boot1Ptr : BitVec 32
  powerpc : Bool
  sdBoot : Bool
  cpCmds : Option (List CpCmd)
  apFiles : Option (List ApFile)

def Config.stopCmd (cfg : Config) : BitVec 32 := if cfg.powerpc then crcStopCmdPowerpc else crcStopCmdArm

def wordOf (b₀ b₁ b₂ b₃ : Byte) : BitVec 32 := b₃ ++ b₂ ++ b₁ ++ b₀

def rcwWord (cfg : Config) (i : Nat) (word : BitVec 32) : BitVec 32 :=
  if i = sbEnBootHoWord then
    let word := byteSwap32 word
    let word := if cfg.sbEn then word ||| sbEnMask else word
    let word := if cfg.bootHo then word ||| bootHoMask else word
    byteSwap32 word
  else word

def rcwWords (cfg : Config) : Nat → Nat → List Byte → List Byte × List Byte
  | 0, _, rest => ([], rest)
  | n + 1, i, b₀ :: b₁ :: b₂ :: b₃ :: rest =>
    let (out, left) := rcwWords cfg n (i + 1) rest
    (fwriteWord (rcwWord cfg i (wordOf b₀ b₁ b₂ b₃)) ++ out, left)
  | _ + 1, _, _ => ([], [])

-- The caller does not look at the result; `none` is an exit. A file that is too short for the RCW
-- stays at its beginning.
def rcwSbenBootHo (cfg : Config) (file : List Byte) : Option (List Byte × List Byte) :=
  if cfg.sbenFlag = false then none
  else if cfg.boothoFlag = false then none
  else if BitVec.ofNat 32 file.length < BitVec.ofNat 32 (4 * numRcwWord) then some ([], file)
  else some (rcwWords cfg numRcwWord 0 file)

def firstWord (garbage : BitVec 32) : List Byte → BitVec 32 × List Byte
  | b₀ :: b₁ :: b₂ :: b₃ :: rest => (wordOf b₀ b₁ b₂ b₃, rest)
  | part => (wordOf (part.getD 0 (garbage.extractLsb' 0 8)) (part.getD 1 (garbage.extractLsb' 8 8))
      (part.getD 2 (garbage.extractLsb' 16 8)) (part.getD 3 (garbage.extractLsb' 24 8)), [])

def copyWords (stop : BitVec 32) (word : BitVec 32) : List Byte → Option (List Byte)
  | b₀ :: b₁ :: b₂ :: b₃ :: rest =>
    if byteSwap32 word = stop then some []
    else (copyWords stop (wordOf b₀ b₁ b₂ b₃) rest).map (fwriteWord word ++ ·)
  | _ => if byteSwap32 word = stop then some [] else none

def getBootptr (cfg : Config) : Option (List Byte) :=
  if byteSwap32 cfg.boot1Ptr ≠ 0 then
    some (fwriteWord (byteSwap32 bootptrAddr) ++ fwriteWord (byteSwap32 cfg.boot1Ptr))
  else none

def addCpyCmds (cmds : List CpCmd) : Option (List Byte) :=
  addCpyCmd ((cmds.map fun c => c.image.length).sum + 1) cmds

def crcTable (i : BitVec 32) : BitVec 32 :=
  (List.range 8).foldl (fun c _ => if c &&& 0x80000000 ≠ 0 then pbiCrcPolynomial ^^^ (c <<< 1) else c <<< 1) (i <<< 24)

def pbiCrc (data : List Byte) : BitVec 32 :=
  data.foldl (fun crc d => crcTable (((crc >>> 24) ^^^ d.setWidth 32) &&& 0xff) ^^^ (crc <<< 8)) 0xffffffff

def addPbiStopCmd (cfg : Config) (out : List Byte) : List Byte :=
  let out := out ++ fwriteWord (byteSwap32 cfg.stopCmd)
  out ++ fwriteWord (byteSwap32 (pbiCrc out))

def padding (j : Nat) : List Byte :=
  if 0 < j then List.replicate (min j bufferSize) 0xFF ++ padding (j - bufferSize) else []
termination_by j
decreasing_by
  unfold bufferSize
  omega

def imageOffset (cfg : Config) (f : ApFile) : BitVec 32 :=
  if cfg.sdBoot then f.offset - apndImgOff else f.offset

def addApImg (cfg : Config) : List ApFile → List Byte → Option (List Byte)
  | [], out => some out
  | f :: rest, out =>
    let fileLen := BitVec.ofNat 32 out.length
    if imageOffset cfg f < fileLen then none
    else
      let j := (imageOffset cfg f - fileLen).toInt
      addApImg cfg rest (out ++ padding j.toNat ++ f.image)

-- `none` is every end without success; `garbage` is what the local variable `word` holds at first.
def createPbiTa2 (garbage : BitVec 32) (cfg : Config) (file : List Byte) : Option (List Byte) :=
  (rcwSbenBootHo cfg file).bind fun (head, rest) =>
  let (word, rest) := firstWord garbage rest
  (copyWords cfg.stopCmd word rest).bind fun copied =>
  (getBootptr cfg).bind fun bootptr =>
  cfg.cpCmds.bind fun cmds =>
  (addCpyCmds cmds).bind fun copies =>
  cfg.apFiles.bind fun files =>
  addApImg cfg files (addPbiStopCmd cfg (head ++ copied ++ bootptr ++ copies))

structure Command where
  address : BitVec 32
  data : List (BitVec 32)

def Command.words (c : Command) : List (BitVec 32) := c.address :: c.data

structure WellFormed (cfg : Config) (file : List Byte) (rcw : List (BitVec 32)) (commands : List Command)
    (crc : BitVec 32) : Prop where
  words : file = (rcw ++ commands.flatMap Command.words ++ [cfg.stopCmd, crc]).flatMap fullBytes
  rcw : rcw.length = numRcwWord
  commands : ∀ c ∈ commands, c.address ≠ cfg.stopCmd ∧ byteCount c.address = 4 * c.data.length
  crc : Rcw.crc32 (file.map BitVec.toNat) = 0

def setBit (mask : BitVec 32) (value : Bool) (word : BitVec 32) : BitVec 32 :=
  if value then word ||| mask else word &&& ~~~mask

def configuredWord (cfg : Config) (word : BitVec 32) : BitVec 32 :=
  setBit bootHoMask cfg.bootHo (setBit sbEnMask cfg.sbEn word)

def configuredRcw (cfg : Config) (rcw : List (BitVec 32)) : List (BitVec 32) :=
  rcw.modify sbEnBootHoWord (configuredWord cfg)

structure Configured (cfg : Config) : Prop where
  sbenFlag : cfg.sbenFlag = true
  boothoFlag : cfg.boothoFlag = true
  boot1Ptr : cfg.boot1Ptr ≠ 0
  cpCmds : cfg.cpCmds.isSome = true
  apFiles : cfg.apFiles.isSome = true

def copies (cfg : Config) : List Byte := (addCpyCmds (cfg.cpCmds.getD [])).getD []

def images (cfg : Config) : List ApFile := cfg.apFiles.getD []

def requested (cfg : Config) (f : ApFile) : Int := f.offset.toNat - if cfg.sdBoot then 0x1000 else 0

def Placed (cfg : Config) : List ApFile → List Byte → List Byte → Prop
  | [], out, result => result = out
  | f :: rest, out, result => ∃ gap : Nat, (out.length + gap : Int) = requested cfg f ∧
      Placed cfg rest (out ++ List.replicate gap 0xFF ++ f.image) result

def body (cfg : Config) (words : List (BitVec 32)) : List Byte :=
  (words ++ [bootptrAddr, cfg.boot1Ptr]).flatMap fullBytes ++ copies cfg ++ fullBytes cfg.stopCmd

structure Rewritten (cfg : Config) (rcw : List (BitVec 32)) (commands : List Command) (out : List Byte) : Prop where
  written : ∃ crc, Rcw.crc32 ((body cfg (configuredRcw cfg rcw ++ commands.flatMap Command.words) ++
      fullBytes crc).map BitVec.toNat) = 0 ∧
    Placed cfg (images cfg) (body cfg (configuredRcw cfg rcw ++ commands.flatMap Command.words) ++ fullBytes crc) out

def Fits (cfg : Config) : List ApFile → Nat → Prop
  | [], _ => True
  | f :: rest, len => (len : Int) ≤ requested cfg f ∧ Fits cfg rest ((requested cfg f).toNat + f.image.length)

-- A well-formed file is rewritten, and is refused only if the images cannot be placed; another one is
-- refused.
def Meets (garbage : BitVec 32) (cfg : Config) (file : List Byte) : Prop :=
  Configured cfg →
    (∀ rcw commands crc, WellFormed cfg file rcw commands crc →
      (∀ out, createPbiTa2 garbage cfg file = some out → Rewritten cfg rcw commands out) ∧
      (Fits cfg (images cfg) (file.length + 8 + (copies cfg).length) →
        (createPbiTa2 garbage cfg file).isSome = true)) ∧
    ((¬ ∃ rcw commands crc, WellFormed cfg file rcw commands crc) → createPbiTa2 garbage cfg file = none)

end Flexbuild.PbiCreation
