import Mathlib
import Flexbuild.Fields

/-! Commands that copy images: the window register is set once for an image, and the image is
cut into pieces whose sizes are powers of two, each with a command of its own. -/
namespace Flexbuild.PbiCopy
open ByteMemory (Byte)
open Fields

structure CpCmd where
  dst : BitVec 32
  image : List Byte
  small : image.length < 2 ^ 32

def byteSwap32 (word : BitVec 32) : BitVec 32 :=
  (word &&& 0xff000000#32) >>> 24 ||| (word &&& 0x00ff0000#32) >>> 8 |||
    (word &&& 0x0000ff00#32) <<< 8 ||| (word &&& 0x000000ff#32) <<< 24

def fwriteWord (word : BitVec 32) : List Byte :=
  [word.extractLsb' 0 8, word.extractLsb' 8 8, word.extractLsb' 16 8, word.extractLsb' 24 8]

def offsetMask : BitVec 32 := 0x00ffffff#32
def altcbarAddress : BitVec 32 := byteSwap32 0x09570158#32
def waitCmdWriteAddress : BitVec 32 := byteSwap32 0x096100c0#32
def waitCmd : BitVec 32 := byteSwap32 0x000fffff#32

def pickLength (fileSize maxPbiDataLenByte : Nat) : Nat :=
  if fileSize < 64 then ([32, 16, 8, 4, 2, 1].find? (· ≤ fileSize)).getD maxPbiDataLenByte else maxPbiDataLenByte

def writeCmdBase : Nat → BitVec 32
  | 32 => 0xc1000000#32
  | 16 => 0xa1000000#32
  | 8 => 0x91000000#32
  | 4 => 0x89000000#32
  | 2 => 0x85000000#32
  | 1 => 0x82000000#32
  | _ => 0x81000000#32

-- `rest` is what of the file is still to be read.
def copyLoop : Nat → List Byte → Nat → Nat → BitVec 32 → Option (List Byte)
  | 0, _, _, _, _ => none
  | fuel + 1, rest, fileSize, maxPbiDataLenByte, dstOffset =>
    if fileSize = 0 then some []
    else
      let maxPbiDataLenByte := pickLength fileSize maxPbiDataLenByte
      let read := rest.take maxPbiDataLenByte
      let pbiData := read ++ List.replicate (maxPbiDataLenByte - read.length) 0
      let size := if maxPbiDataLenByte ≤ rest.length then 1 else 0
      let dstOffset := dstOffset &&& offsetMask
      let pbiCmd := byteSwap32 (writeCmdBase maxPbiDataLenByte ||| dstOffset)
      let out := fwriteWord pbiCmd ++ pbiData
      if size ≠ 0 then
        (copyLoop fuel (rest.drop maxPbiDataLenByte) (fileSize - maxPbiDataLenByte) maxPbiDataLenByte
          (dstOffset + BitVec.ofNat 32 maxPbiDataLenByte)).map (out ++ ·)
      else some out

def copyImage (fuel : Nat) (c : CpCmd) : Option (List Byte) :=
  let altcbar := byteSwap32 ((0xfff00000#32 &&& c.dst) >>> 16)
  (copyLoop fuel c.image c.image.length 64 c.dst).map fun copied =>
    fwriteWord altcbarAddress ++ fwriteWord altcbar ++ fwriteWord waitCmdWriteAddress ++ fwriteWord waitCmd ++ copied

def addCpyCmd (fuel : Nat) : List CpCmd → Option (List Byte)
  | [] => some []
  | c :: rest =>
    match copyImage fuel c with
    | none => none
    | some out => (addCpyCmd fuel rest).map (out ++ ·)

structure Command where
  word : BitVec 32
  data : List Byte
  deriving DecidableEq

namespace Command
variable (c : Command)

def top : BitVec 8 := c.word.extractLsb' 24 8

def acs : Bool := c.top.getLsbD 7

def cont : Bool := c.top.getLsbD 0

def address : BitVec 24 := c.word.extractLsb' 0 24

def bytes : List Byte := fullBytes c.word ++ c.data

end Command

def byteCount (word : BitVec 32) : Nat :=
  let count := ((word.extractLsb' 24 8).extractLsb' 1 6).toNat
  if count = 0 then 64 else count

def parse : Nat → List Byte → Option (List Command)
  | _, [] => some []
  | 0, _ => none
  | fuel + 1, stream =>
    let word := fullAt stream 0
    if stream.length < 4 + byteCount word then none
    else
      (parse fuel (stream.drop (4 + byteCount word))).map
        (⟨word, (stream.drop 4).take (byteCount word)⟩ :: ·)

def altcbarRegister : BitVec 24 := 0x570158#24

def inPblWindow (address : BitVec 24) : Bool := address &&& 0xffff00#24 = 0x610000#24

def acsAddress (altcbar : BitVec 32) (address : BitVec 24) : Nat :=
  ((altcbar <<< 16 &&& 0xff000000#32) ||| address.setWidth 32).toNat

def placed (address : Nat) (data : List Byte) : List (Nat × Byte) := (List.range' address data.length).zip data

def execute : BitVec 32 → List Command → Option (List (Nat × Byte))
  | _, [] => some []
  | altcbar, c :: rest =>
    if c.acs then (execute altcbar rest).map (placed (acsAddress altcbar c.address) c.data ++ ·)
    else if c.address = altcbarRegister then execute (fullAt c.data 0) rest
    else if inPblWindow c.address then execute altcbar rest
    else none

structure Reproduces (images : List CpCmd) (out : List Byte) : Prop where
  copied : ∃ commands, parse out.length out = some commands ∧ (∀ c ∈ commands, c.cont = true) ∧
    ∀ altcbar, execute altcbar commands = some (images.flatMap fun c => placed c.dst.toNat c.image)

def CpCmd.Fits (c : CpCmd) : Prop :=
  2 ∣ c.image.length ∧ c.dst.toNat % 2 ^ 24 + (c.image.length - c.image.length.gcd 64) < 2 ^ 24

instance (c : CpCmd) : Decidable c.Fits := inferInstanceAs (Decidable (_ ∧ _))

end Flexbuild.PbiCopy
