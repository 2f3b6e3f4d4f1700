import Mathlib.Logic.Function.Basic
import Flexbuild.Words

/-! Reassembly of IP fragments in one context. The RFDC counts what has arrived; beside it lie the
list of frame descriptors and a doubly linked list by offset of the fragments that arrived out of
order, whose elements are read and written one at a time or an octet of eight at a time. -/
namespace Flexbuild.IprFragments
open Words

inductive IpHeader where
  | ipv4 (vsnAndIhl tos totalLength flagsAndOffset : Nat)
  | ipv6 (vsnTrafficFlow payloadLength fraghdrOffset offsetAndFlags : Nat)
  deriving DecidableEq, Repr

structure Fd where
  frame : List UInt8
  frc : Nat
  deriving DecidableEq, Repr

structure Fragment where
  ipOffset : Nat
  header : IpHeader
  fd : Fd
  deriving DecidableEq, Repr

namespace Fragment

def offset (f : Fragment) : Nat :=
  match f.header with
  | .ipv4 _ _ _ flagsAndOffset => flagsAndOffset % 2 ^ 13 * 8
  | .ipv6 _ _ _ offsetAndFlags => wrap 16 offsetAndFlags / 8 * 8

def ipHeaderSize (f : Fragment) : Nat :=
  match f.header with
  | .ipv4 vsnAndIhl _ _ _ => vsnAndIhl % 16 * 4
  | .ipv6 _ _ fraghdrOffset _ => wrap 16 (minus 16 fraghdrOffset f.ipOffset + 8)

def size (f : Fragment) : Nat :=
  match f.header with
  | .ipv4 _ _ totalLength _ => minus 16 totalLength f.ipHeaderSize
  | .ipv6 _ payloadLength _ _ => wrap 16 (minus 16 payloadLength f.ipHeaderSize + 40)

def last (f : Fragment) : Bool :=
  match f.header with
  | .ipv4 _ _ _ flagsAndOffset => flagsAndOffset / 2 ^ 13 % 2 == 0
  | .ipv6 _ _ _ offsetAndFlags => offsetAndFlags % 2 == 0

def ecn (f : Fragment) : Nat :=
  match f.header with
  | .ipv4 _ tos _ _ => tos % 4
  | .ipv6 vsnTrafficFlow _ _ _ => vsnTrafficFlow / 2 ^ 20 % 4

def firstFragHdrLength (f : Fragment) : Nat :=
  match f.header with
  | .ipv4 .. => f.ipHeaderSize
  | .ipv6 .. => minus 16 f.ipHeaderSize 8

-- The parser calls a frame a fragment unless it is a whole datagram by itself.
def isFragment (f : Fragment) : Bool := f.offset != 0 || !f.last

def checkRemovePadding (f : Fragment) : List UInt8 :=
  match f.header with
  | .ipv4 _ _ totalLength _ =>
      let startPadding := totalLength + f.ipOffset
      if f.fd.frame.length > startPadding then f.fd.frame.take startPadding else f.fd.frame
  | .ipv6 .. => f.fd.frame

def storedFd (f : Fragment) : Fd :=
  ⟨f.checkRemovePadding,
    if f.offset ≠ 0 then wrap 32 (f.ipOffset + f.ipHeaderSize) else f.fd.frc⟩

end Fragment

inductive FragStatus where
  | fragOkReassNotCompl | lastFragInOrder | lastFragOutOfOrder
  | malfMinSizeIpv4 | malfMinSizeIpv6 | malfSizeM8 | malfMaxIpSize | malfPastEnd | malfLastFrag
  | malfOverlapDuplicate | malfEcn | malfMaxReassFrmSz
  deriving DecidableEq, Repr

def FragStatus.malformed : FragStatus → Bool
  | .fragOkReassNotCompl | .lastFragInOrder | .lastFragOutOfOrder => false
  | _ => true

def FragStatus.isLast : FragStatus → Bool
  | .lastFragInOrder | .lastFragOutOfOrder => true
  | _ => false

structure Instance where
  maxReassFrmSize : Nat
  minFragSizeIpv4 : Nat
  minFragSizeIpv6 : Nat
  deriving DecidableEq, Repr

def maxNumOfFrags : Nat := 64
def maxIpSize : Nat := 65536
def notEct : Nat := 0
def ce : Nat := 3

def checkForFragError (inst : Instance) (f : Fragment) : Option FragStatus :=
  let length := wrap 16 f.fd.frame.length
  let tooShort := match f.header with
    | .ipv4 .. => if length < inst.minFragSizeIpv4 then some .malfMinSizeIpv4 else none
    | .ipv6 .. => if length < inst.minFragSizeIpv6 then some .malfMinSizeIpv6 else none
  match tooShort with
  | some status => some status
  | none =>
      if !f.last && f.size % 8 != 0 then some .malfSizeM8
      else if f.size + f.offset > maxIpSize then some .malfMaxIpSize
      else none

structure Rfdc where
  expectedTotalLength : Nat
  currentTotalLength : Nat
  firstFragHdrLength : Nat
  biggestPayload : Nat
  firstFragIndex : Nat
  lastFragIndex : Nat
  nextIndex : Nat
  indexToOutOfOrder : Nat
  numOfFrags : Nat
  totalInOrderPayload : Nat
  iphdrOffset : Nat
  ipv6FraghdrOffset : Nat
  valid : Bool
  firstArrived : Bool
  statusNotEct : Bool
  statusCe : Bool
  outOfOrder : Bool
  orderAndOoo : Bool
  deriving DecidableEq, Repr

structure LinkListElement where
  fragOffset : Nat
  fragLength : Nat
  prevIndex : Nat
  nextIndex : Nat
  deriving DecidableEq, Repr, Inhabited

-- `fds` holds the stores into the list of descriptors, the latest first.
structure Context where
  rfdc : Rfdc
  links : Nat → LinkListElement
  fds : List (Nat × Fd)

def Context.fdAt (c : Context) (slot : Nat) : Option Fd := c.fds.lookup slot

def Context.storeFd (c : Context) (slot : Nat) (fd : Fd) : Context :=
  { c with fds := (slot, fd) :: c.fds }

def iprMissHandling (hdrLength iphdrOffset fraghdrOffset : Nat) (links : Nat → LinkListElement) :
    Context :=
  { rfdc :=
      { expectedTotalLength := 0, currentTotalLength := 0, firstFragHdrLength := hdrLength,
        biggestPayload := 0, firstFragIndex := 0, lastFragIndex := 0, nextIndex := 0,
        indexToOutOfOrder := 0, numOfFrags := 0, totalInOrderPayload := 0,
        iphdrOffset := iphdrOffset, ipv6FraghdrOffset := fraghdrOffset, valid := true,
        firstArrived := false, statusNotEct := false, statusCe := false, outOfOrder := false,
        orderAndOoo := false }
    links := links
    fds := [] }

def ecnCheck (r : Rfdc) (f : Fragment) : Option Rfdc :=
  if f.ecn = notEct then
    if r.statusCe then none else some { r with statusNotEct := true }
  else if f.ecn = ce then
    if r.statusNotEct then none else some { r with statusCe := true }
  else some r

abbrev LinkList := Nat → LinkListElement

def readOctet (links : LinkList) (octetIndex : Nat) : LinkList := fun i => links (octetIndex * 8 + i)

def writeOctet (links : LinkList) (octetIndex : Nat) (linkList : LinkList) : LinkList :=
  fun i => if i / 8 = octetIndex then linkList (i % 8) else links i

def change (linkList : LinkList) (i : Nat) (edit : LinkListElement → LinkListElement) : LinkList :=
  Function.update linkList i (edit (linkList i))

inductive Found where
  | first (octetIndex : Nat) (linkList : LinkList) (temp : Nat)
  | behind (octetIndex : Nat) (linkList : LinkList) (temp : Nat)

-- The `do` loop. The index has eight bits, so that a walk of 256 steps never ends.
def search (links : LinkList) (stop first : Nat) : Nat → Nat → Nat → LinkList → Option Found
  | 0, _, _, _ => none
  | fuel + 1, temp, octetIndex, linkList =>
      if temp = first then some (.first octetIndex linkList temp)
      else
        let temp' := (linkList (temp % 8)).prevIndex
        let linkList' := if temp' / 8 ≠ octetIndex then readOctet links (temp' / 8) else linkList
        if stop ≤ (linkList' (temp' % 8)).fragOffset then
          search links stop first fuel temp' (temp' / 8) linkList'
        else some (.behind (temp' / 8) linkList' temp')

def linkFirst (links : LinkList) (octetIndex : Nat) (linkList : LinkList)
    (temp current offset size : Nat) : LinkList :=
  let element : LinkListElement := ⟨offset, size, 0, temp⟩
  let linkList := change linkList (temp % 8) fun e => { e with prevIndex := current }
  if current / 8 = octetIndex then
    writeOctet links octetIndex (Function.update linkList (current % 8) element)
  else
    let beside := if temp % 8 = 0 then temp % 8 + 1 else temp % 8 - 1
    let linkList := Function.update linkList beside element
    Function.update (Function.update links current (linkList beside)) temp (linkList (temp % 8))

-- The new element behind `temp`, whose successor may lie in another octet.
def linkBehind (links : LinkList) (octetIndex : Nat) (linkList : LinkList)
    (temp current offset size : Nat) : LinkList :=
  let newFragIndex := (linkList (temp % 8)).nextIndex
  let element : LinkListElement := ⟨offset, size, temp, newFragIndex⟩
  let back := fun e : LinkListElement => { e with prevIndex := current }
  let writeBack (linkList : LinkList) : LinkList :=
    if newFragIndex / 8 = octetIndex then
      writeOctet links octetIndex (change linkList (newFragIndex % 8) back)
    else change (writeOctet links octetIndex linkList) newFragIndex back
  if current / 8 = octetIndex then
    let linkList := Function.update linkList (current % 8) element
    writeBack (change linkList (temp % 8) fun e => { e with nextIndex := current })
  else
    let links := writeBack (change linkList (temp % 8) fun e => { e with nextIndex := current })
    Function.update links current element

def placed (inst : Instance) (c : Context) (f : Fragment) : Context × FragStatus :=
  let current := c.rfdc.nextIndex
  let total := wrap 16 (c.rfdc.currentTotalLength + f.size)
  let c := { c with rfdc := { c.rfdc with
    currentTotalLength := total, numOfFrags := wrap 8 (c.rfdc.numOfFrags + 1) } }
  if total = c.rfdc.expectedTotalLength then
    if total + c.rfdc.firstFragHdrLength ≤ inst.maxReassFrmSize then
      (c.storeFd current f.storedFd, .lastFragOutOfOrder)
    else (c, .malfMaxReassFrmSz)
  else
    let c := c.storeFd current f.storedFd
    ({ c with rfdc := { c.rfdc with nextIndex := wrap 8 (current + 1) } }, .fragOkReassNotCompl)

def outOfOrder (inst : Instance) (c : Context) (f : Fragment) : Option (Context × FragStatus) :=
  let r := c.rfdc
  let current := r.nextIndex
  let temp := r.lastFragIndex
  if f.offset < r.totalInOrderPayload then some (c, .malfOverlapDuplicate)
  else if f.offset ≥ r.biggestPayload then
    if r.expectedTotalLength ≠ 0 then some (c, .malfPastEnd)
    else
      let stop := wrap 16 (f.offset + f.size)
      let r := { r with
        expectedTotalLength := if f.last then stop else r.expectedTotalLength
        biggestPayload := stop
        lastFragIndex := current }
      let links := Function.update (change c.links temp fun e => { e with nextIndex := current })
        current ⟨f.offset, f.size, temp, 0⟩
      some (placed inst { c with rfdc := r, links := links } f)
  else if f.last then some (c, .malfLastFrag)
  else
    let octetIndex := temp / 8
    let linkList := readOctet c.links octetIndex
    if f.offset + f.size > (linkList (temp % 8)).fragOffset then some (c, .malfOverlapDuplicate)
    else
      match search c.links (f.offset + f.size) r.firstFragIndex 256 temp octetIndex linkList with
      | none => none
      | some (.first octetIndex linkList temp) =>
          let links := linkFirst c.links octetIndex linkList temp current f.offset f.size
          some (placed inst { c with rfdc := { r with firstFragIndex := current }, links := links } f)
      | some (.behind octetIndex linkList temp) =>
          let element := linkList (temp % 8)
          if f.offset ≥ wrap 16 (element.fragOffset + element.fragLength) then
            let links := linkBehind c.links octetIndex linkList temp current f.offset f.size
            some (placed inst { c with links := links } f)
          else some (c, .malfOverlapDuplicate)

def inOrder (inst : Instance) (c : Context) (f : Fragment) : Context × FragStatus :=
  let slot := c.rfdc.nextIndex
  let total := wrap 16 (c.rfdc.currentTotalLength + f.size)
  let c := { c with rfdc := { c.rfdc with
    numOfFrags := wrap 8 (c.rfdc.numOfFrags + 1), currentTotalLength := total } }
  if f.last then
    if total + c.rfdc.firstFragHdrLength ≤ inst.maxReassFrmSize then
      (c.storeFd slot f.storedFd, .lastFragInOrder)
    else (c, .malfMaxReassFrmSz)
  else
    let c := c.storeFd slot f.storedFd
    ({ c with rfdc := { c.rfdc with nextIndex := wrap 8 (slot + 1) } }, .fragOkReassNotCompl)

def newOutOfOrder (c : Context) (f : Fragment) : Context × FragStatus :=
  let current := c.rfdc.nextIndex
  let stop := wrap 16 (f.offset + f.size)
  let r := { c.rfdc with outOfOrder := true }
  let r := if current ≠ 0 then
      { r with orderAndOoo := true, indexToOutOfOrder := current, firstFragIndex := current,
               totalInOrderPayload := r.currentTotalLength }
    else r
  let r := { r with
    lastFragIndex := current
    numOfFrags := wrap 8 (r.numOfFrags + 1)
    currentTotalLength := wrap 16 (r.currentTotalLength + f.size)
    nextIndex := wrap 8 (current + 1)
    biggestPayload := stop
    expectedTotalLength := if f.last then stop else r.expectedTotalLength }
  let links := Function.update c.links current ⟨f.offset, f.size, 0, 0⟩
  (Context.storeFd { c with rfdc := r, links := links } current f.storedFd, .fragOkReassNotCompl)

def firstFragment (c : Context) (f : Fragment) : Context :=
  if f.offset = 0 then
    { c with rfdc := { c.rfdc with
      firstArrived := true
      iphdrOffset := f.ipOffset
      ipv6FraghdrOffset := match f.header with
        | .ipv4 .. => c.rfdc.ipv6FraghdrOffset
        | .ipv6 _ _ fraghdrOffset _ => fraghdrOffset } }
  else c

-- The header length is taken over even when the fragment is refused below.
def readHeader (r : Rfdc) (f : Fragment) : Rfdc :=
  if f.offset ≠ 0 then r else { r with firstFragHdrLength := f.firstFragHdrLength }

def iprInsertToLinkList (inst : Instance) (c : Context) (f : Fragment) :
    Option (Context × FragStatus) :=
  match ecnCheck c.rfdc f with
  | none => some (c, .malfEcn)
  | some r =>
      let c := { c with rfdc := readHeader r f }
      if !c.rfdc.outOfOrder then
        if f.offset = c.rfdc.currentTotalLength then
          let (c, status) := inOrder inst c f
          some (firstFragment c f, status)
        else if f.offset < c.rfdc.currentTotalLength then some (c, .malfOverlapDuplicate)
        else
          let (c, status) := newOutOfOrder c f
          some (firstFragment c f, status)
      else
        match outOfOrder inst c f with
        | none => none
        | some (c, status) =>
            if status.malformed then some (c, status) else some (firstFragment c f, status)

-- `ipv4_header_update_and_l4_validation` and its sibling: the length of the reassembled datagram.
def updatedLength (r : Rfdc) (first : IpHeader) : Nat :=
  match first with
  | .ipv4 vsnAndIhl _ _ _ => wrap 16 (r.currentTotalLength + vsnAndIhl % 16 * 4)
  | .ipv6 .. =>
      let extensionSize := minus 16 (minus 16 r.ipv6FraghdrOffset r.iphdrOffset) 40
      wrap 16 (r.currentTotalLength + extensionSize)

def sampleFragment (flagsAndOffset : Nat) : Fragment :=
  ⟨14, .ipv4 0x45 0 84 flagsAndOffset, ⟨List.replicate 98 0, 0⟩⟩

def sampleContext : Context := iprMissHandling 0 0 0 default

end Flexbuild.IprFragments
