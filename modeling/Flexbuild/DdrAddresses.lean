import Flexbuild.Tilings
import Mathlib.Data.BitVec
import Mathlib.Tactic.Common

/-! The memory map of the DDR controllers: each controller gets a base and a size, and each of its chip selects a
range. Controllers that are interleaved share one region, the others stand behind it one after the other. -/
namespace Flexbuild.DdrAddresses

abbrev Long := BitVec 64
abbrev Word := BitVec 32

def FSL_DDR_CS0_CS1 : Word := 0x40
def FSL_DDR_CS2_CS3 : Word := 0x20
def FSL_DDR_CS0_CS1_AND_CS2_CS3 : Word := FSL_DDR_CS0_CS1 ||| FSL_DDR_CS2_CS3
def FSL_DDR_CS0_CS1_CS2_CS3 : Word := FSL_DDR_CS0_CS1_AND_CS2_CS3 ||| 0x04

def FSL_DDR_CACHE_LINE_INTERLEAVING : Word := 0
def FSL_DDR_PAGE_INTERLEAVING : Word := 1
def FSL_DDR_BANK_INTERLEAVING : Word := 2
def FSL_DDR_SUPERBANK_INTERLEAVING : Word := 3
def FSL_DDR_256B_INTERLEAVING : Word := 8

structure DimmParams where
  rankDensity : Long

structure MemctlOpt where
  dbwCapShift : Word
  memctlInterleaving : Word
  memctlInterleavingMode : Word
  baIntlvCtl : Word
  dataBusWidth : Word
  dataBusUsed : Word

structure DdrConf where
  csInUse : Word
  csBaseAddr : Nat → Long
  csSize : Nat → Long
  baseAddr : Long
  totalMem : Long

structure Controller where
  dimm : DimmParams
  opts : MemctlOpt
  conf : DdrConf

def Controller.banks (c : Controller) : Word := c.opts.baIntlvCtl &&& FSL_DDR_CS0_CS1_CS2_CS3
def Controller.rankDensity (c : Controller) : Long := c.dimm.rankDensity >>> c.opts.dbwCapShift.toNat

def Controller.ctlrDensityMul (c : Controller) : Nat :=
  if c.banks = FSL_DDR_CS0_CS1_CS2_CS3 then 4
  else if c.banks = FSL_DDR_CS0_CS1 ∨ c.banks = FSL_DDR_CS0_CS1_AND_CS2_CS3 then 2
  else 1

def KnownMode (mode : Word) : Prop :=
  mode = FSL_DDR_256B_INTERLEAVING ∨ mode = FSL_DDR_CACHE_LINE_INTERLEAVING ∨ mode = FSL_DDR_PAGE_INTERLEAVING ∨
    mode = FSL_DDR_BANK_INTERLEAVING ∨ mode = FSL_DDR_SUPERBANK_INTERLEAVING
instance (mode) : Decidable (KnownMode mode) := by unfold KnownMode; infer_instance

-- `none` is the panic.
def assignIntlvAddr (c : Controller) (currentMemBase : Long) : Option DdrConf :=
  if KnownMode c.opts.memctlInterleavingMode then
    let mul := c.ctlrDensityMul
    let total := 2 * BitVec.ofNat 64 mul * c.rankDensity
    some {
      csInUse := BitVec.ofNat 32 (2 ^ mul - 1)
      csBaseAddr := fun i => if i < mul then currentMemBase else c.conf.csBaseAddr i
      csSize := fun i => if i < mul then total else c.conf.csSize i
      baseAddr := currentMemBase
      totalMem := total }
  else none

structure Fill where
  csBaseAddr : Nat → Long
  csSize : Nat → Long
  base : Long
  total : Long

def Fill.put (f : Fill) (i : Nat) (size : Long) : Fill :=
  { f with
    csBaseAddr := fun j => if j = i then f.base else f.csBaseAddr j
    csSize := fun j => if j = i then size else f.csSize j }

def sharedRank (density size : Long) (i : Nat) (f : Fill) : Fill :=
  { f.put i size with total := f.total + density }
def ownRank (density : Long) (i : Nat) (f : Fill) : Fill :=
  { f.put i density with total := f.total + density, base := f.base + density }

def whileInUse (csInUse : Word) (limit : Nat) (body : Nat → Fill → Fill) : Nat → Nat × Fill → Nat × Fill
  | 0, (i, f) => (i, f)
  | turns + 1, (i, f) =>
    if csInUse.getLsbD i ∧ i < limit then whileInUse csInUse limit body turns (i + 1, body i f) else (i, f)

def forAll (limit : Nat) (body : Nat → Fill → Fill) (f : Fill) : Fill :=
  (List.range limit).foldl (fun f i => body i f) f

def fillRanks (chipSelects : Nat) (banks csInUse : Word) (density : Long) (f : Fill) : Fill :=
  let two := density <<< 1
  if banks = FSL_DDR_CS0_CS1_CS2_CS3 then forAll chipSelects (sharedRank density (density <<< 2)) f
  else if banks = FSL_DDR_CS0_CS1 then
    let (i, f) := whileInUse csInUse 2 (sharedRank density two) 2 (0, f)
    let f := { f with base := f.base + f.total }
    (whileInUse csInUse chipSelects (ownRank density) chipSelects (i, f)).2
  else if banks = FSL_DDR_CS0_CS1_AND_CS2_CS3 then
    let (i, f) := whileInUse csInUse 2 (sharedRank density two) 2 (0, f)
    let f := { f with base := f.base + f.total, total := f.total + f.csSize 0 }
    (whileInUse csInUse chipSelects (sharedRank density two) chipSelects (i, f)).2
  else if banks = FSL_DDR_CS2_CS3 then
    let (i, f) := whileInUse csInUse 2 (ownRank density) 2 (0, f)
    (whileInUse csInUse chipSelects (sharedRank density two) chipSelects (i, f)).2
  else (whileInUse csInUse chipSelects (ownRank density) chipSelects (0, f)).2

-- With `conf->total_mem`, which the caller sets to the value returned.
def assignNonIntlvAddr (chipSelects : Nat) (c : Controller) (currentMemBase : Long) : DdrConf :=
  let f := fillRanks chipSelects c.banks c.conf.csInUse c.rankDensity
    ⟨c.conf.csBaseAddr, c.conf.csSize, currentMemBase, 0⟩
  ⟨c.conf.csInUse, f.csBaseAddr, f.csSize, currentMemBase, f.total⟩

def interleaved (c : Controller) : Bool := c.opts.memctlInterleaving ≠ 0

def intlvLoop (chipSelects : Nat) : List Controller → Long → Long → Long → Option (List Controller × Long)
  | [], _, totalMem, _ => some ([], totalMem)
  | c :: rest, base, totalMem, totalCtlrMem =>
    if interleaved c then
      (assignIntlvAddr c base).bind fun conf =>
        (intlvLoop chipSelects rest base conf.totalMem conf.totalMem).map fun (more, total) =>
          ({ c with conf } :: more, total)
    else
      let base := base + totalCtlrMem
      let conf := assignNonIntlvAddr chipSelects c base
      (intlvLoop chipSelects rest base (totalMem + conf.totalMem) conf.totalMem).map fun (more, total) =>
        ({ c with conf } :: more, total)

def linearLoop (chipSelects : Nat) : List Controller → Long → Long → Long → List Controller × Long
  | [], _, totalMem, _ => ([], totalMem)
  | c :: rest, base, totalMem, totalCtlrMem =>
    let base := base + totalCtlrMem
    let conf := assignNonIntlvAddr chipSelects c base
    let (more, total) := linearLoop chipSelects rest base (totalMem + conf.totalMem) conf.totalMem
    ({ c with conf } :: more, total)

def shifted (c : Controller) : Controller :=
  { c with opts := { c.opts with dbwCapShift := c.opts.dataBusUsed - c.opts.dataBusWidth } }

def shiftAll : List Controller → List Controller × Bool
  | [] => ([], true)
  | c :: rest =>
    if c.opts.dataBusWidth > c.opts.dataBusUsed then (c :: rest, false)
    else
      let (more, right) := shiftAll rest
      (shifted c :: more, right)

def EINVAL : Word := 3

def assignAddresses (chipSelects : Nat) (memBase : Long) (ctrls : List Controller) : Option (Word × List Controller) :=
  match shiftAll ctrls with
  | (ctrls, false) => some (-EINVAL, ctrls)
  | ([], true) => some (0, [])
  | (first :: rest, true) =>
    if interleaved first then
      (intlvLoop chipSelects (first :: rest) memBase 0 0).map fun (ctrls, total) => (total.setWidth 32, ctrls)
    else
      let (ctrls, total) := linearLoop chipSelects (first :: rest) memBase 0 0
      some (total.setWidth 32, ctrls)

end Flexbuild.DdrAddresses
