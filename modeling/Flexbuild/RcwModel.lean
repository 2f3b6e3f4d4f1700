import Flexbuild.PbiModel

/-! Compiling an RCW and printing one. `createBinary` adds the values of the fields up in one
number of `size` bits, whose first bit is the most significant one, and writes it byte by byte;
`createSource` reads the bits of a binary the other way round and prints the fields it knows. -/
namespace Flexbuild.Rcw
open Numerals BitStrings

structure Field where
  name : Text
  first : Nat
  last : Nat
  deriving DecidableEq, Repr

namespace Field

def low (s : Field) : Nat := min s.first s.last

def high (s : Field) : Nat := max s.first s.last

def width (s : Field) : Nat := 1 + s.high - s.low

end Field

def decimal (n : Nat) : Text := Nat.toDigits 10 n

def tooLarge (value : Nat) (name : Text) : String :=
  "Error: Value " ++ String.ofList (decimal value) ++ " is too large for field " ++ String.ofList name

def accumulate (size : Nat) (symbols : List Field) :
    Nat × List String → List (Text × Nat) → Option (Nat × List String)
  | found, [] => some found
  | (bits, printed), (n, v) :: rest =>
      match symbols.find? (fun s => s.name = n) with
      | none => none
      | some s =>
          if 2 ^ s.width ≤ v then accumulate size symbols (bits, printed ++ [tooLarge v n]) rest
          else if size ≤ s.high then none
          else
            let v := if s.low ≠ s.first then mirror s.width v else v
            accumulate size symbols (bits + v <<< (size - 1 - s.high), printed) rest

def pbiLength : Text := ['P', 'B', 'I', '_', 'L', 'E', 'N', 'G', 'T', 'H']

def Vars.withLength (v : Vars) (pbl : Bool) (symbols : List Field) (assignments : List (Text × Nat))
    (pbi : List Nat) : List (Text × Nat) :=
  if symbols.any (·.name = pbiLength) ∧ ¬ assignments.any (·.1 = pbiLength) ∧ v.pbiformat = 2 then
    assignments ++ [(pbiLength, pbi.length / 4 + if pbl then 2 else 0)]
  else assignments

def Vars.rcwBytes (v : Vars) (bits : Nat) : List Nat :=
  (List.range (v.size / 8)).map fun i =>
    let byte := (bits >>> (v.size - 8 * (i + 1))) &&& 0xff
    if v.classicbitnumbers then mirror 8 byte else byte

def crcTableEntry (i : Nat) : Nat :=
  (List.range 8).foldl (fun mask _ =>
    if mask &&& 0x80000000 ≠ 0 then (mask <<< 1) ^^^ 0x04c11db7 else mask <<< 1) (i <<< 24) &&& 0xffffffff

def crc32 (data : List Nat) : Nat :=
  data.foldl (fun crc i => ((crc <<< 8) ^^^ crcTableEntry ((crc >>> 24) ^^^ i)) &&& 0xffffffff) 0xffffffff

def checksum (little : Bool) (binary : List Nat) : Option Nat :=
  if binary.length % 4 = 0 then some ((words little binary).sum % 2 ^ 32) else none

def swap64 : List Nat → Option (List Nat)
  | a :: b :: c :: d :: e :: f :: g :: h :: rest =>
      (swap64 rest).map (pack true 8 (unpack false [a, b, c, d, e, f, g, h]) ++ ·)
  | [] => some []
  | _ => none

-- Of `l` bytes, those up to the end of the last quad are swapped; eight more follow unchanged.
def swapQuads (binary : List Nat) (l : Nat) : Option (List Nat) :=
  let swapped := (l + 7) / 8 * 8
  (swap64 (binary.take swapped)).map fun head =>
    if l < binary.length then head ++ (binary.drop swapped).take 8 else head

def Vars.preamble (v : Vars) : Option (List Nat) :=
  packWords v.littleendian
    [0xaa55aa55, if v.pbiformat = 2 then 0x80100000
      else (((((v.size / 8) &&& 63) <<< 1) ||| 1) <<< 24) ||| (v.sysaddr &&& 0x00ffffff)]

def Vars.endCommand (v : Vars) (binary pbi : List Nat) : Option (List Nat) :=
  if v.nocrc = 1 then packWords v.littleendian [0x80ff0000, 0]
  else do
    let cmd ← packL v.littleendian
      (if v.pbiformat = 2 then 0x808f0000 else 0x08000040 ||| (v.pbladdr &&& 0x00ffff00))
    let crcbinary := (if v.pbiformat = 2 then pbi else binary) ++ cmd
    let crcbinary := if v.classicbitnumbers then crcbinary.map (mirror 8) else crcbinary
    let crc := if v.classicbitnumbers then mirror 32 (crc32 crcbinary) else crc32 crcbinary
    let crc ← packL v.littleendian (crc ^^^ if v.pbiformat = 2 then 0xffffffff else 0)
    some (cmd ++ crc)

def Vars.createBinary (v : Vars) (pbl : Bool) (symbols : List Field) (assignments : List (Text × Nat))
    (pbi : List Nat) : Option (List Nat × List String) := do
  let (bits, printed) ← accumulate v.size symbols (0, []) (v.withLength pbl symbols assignments pbi)
  let binary ←
    if pbl then do
      let head ← v.preamble
      let loaded := head ++ v.rcwBytes bits
      let loaded ←
        if v.pbiformat = 2 then do
          let sum ← checksum v.littleendian loaded
          some (loaded ++ pack v.littleendian 4 sum)
        else some loaded
      let binary := loaded ++ pbi
      let stop ← v.endCommand binary pbi
      some (binary ++ stop)
    else some (v.rcwBytes bits ++ pbi)
  let binary ←
    if v.littleendian64b then
      swapQuads binary (if v.dont64bswapcrc ∧ pbl then binary.length - 8 else binary.length)
    else some binary
  some (binary, printed)

def fieldLine (name : Text) (width value : Nat) : Text :=
  name ++ '=' :: if 8 < width then '0' :: 'x' :: Nat.toDigits 16 value else decimal value

def decodeFields : List Field → Nat → List Text × Nat
  | [], bits => ([], bits)
  | s :: rest, bits =>
      let raw := (bits >>> s.low) &&& (2 ^ s.width - 1)
      let v := if s.low = s.first then mirror s.width raw else raw
      if v ≠ 0 then
        let (lines, left) := decodeFields rest (Nat.ldiff bits ((2 ^ s.width - 1) <<< s.low))
        (fieldLine s.name s.width v :: lines, left)
      else decodeFields rest bits

def unknownBits (bits : Nat) : List Nat := (List.range bits.size).filter bits.testBit

structure Printed where
  source : List Text
  unknown : List Nat
  deriving DecidableEq, Repr

def Vars.unswapped (v : Vars) (binary : List Nat) : Option (List Nat) :=
  if v.littleendian64b then
    let binary := binary.take (binary.length / 8 * 8)
    let l := if v.dont64bswapcrc ∧ v.size / 8 < binary.length then binary.length - 8 else binary.length
    -- the rest is taken behind the last quad, so there has to be one
    if l < binary.length ∧ l = 0 then none else swapQuads binary l
  else some binary

def Vars.split (v : Vars) (binary : List Nat) : Option (List Nat × List Nat) :=
  if v.size / 8 < binary.length then
    if binary.take 4 = pack v.littleendian 4 0xaa55aa55 then
      some ((binary.drop 8).take (v.size / 8),
        binary.drop (8 + v.size / 8 + if v.pbiformat = 2 then 4 else 0))
    else none
  else some (binary, [])

def disassembleOldWord (v : Vars) (word : Nat) (rest : List Nat) : Option (Text × List Nat) :=
  let hdr := (word &&& 0xff000000) >>> 24
  let pbladdr := v.pbladdr &&& 0x00ffff00
  let turned := rest.map fun w => unpack (!v.littleendian) (pack v.littleendian 4 w)
  if v.littleendian64b ∧ turned = [0x08000040 ||| pbladdr] then
    some (remark "/* CRC and Stop command (CRC " word ")*/", [])
  else if hdr &&& 0x01 = 0x01 then
    let addr := word &&& 0x00ffffff
    let cnt := if (hdr >>> 1) &&& 0x3f = 0 then 64 else (hdr >>> 1) &&& 0x3f
    if addr &&& 0x00ffff00 = pbladdr then do
      let (args, rest) ← arguments 1 rest
      let arg := args.headD 0
      let line :=
        if addr &&& 0xff = 0x00 then Op.flush.word
        else if addr &&& 0xff = 0x40 then remark "/* CRC command (CRC " arg ")*/"
        else if addr &&& 0xff = 0x80 then "jump ".toList ++ hex 8 arg
        else if addr &&& 0xff = 0xc0 then Op.wait.word ++ ' ' :: decimal arg
        else []
      some (line, rest)
    else do
      let (args, rest) ← arguments ((cnt + 3) / 4) rest
      let op := if hdr &&& 0x80 = 0x80 then Op.awrite else Op.write
      some (command op .plain (hex 8 addr :: args.map (hex 8)), rest)
  else if hdr &&& 0x81 = 0x00 then do
    let (args, rest) ← arguments 1 rest
    some (remark "/* CRC and Stop command (CRC " (args.headD 0) ")*/", rest)
  else some (unknownWord word, rest)

def disassembleOldWords (v : Vars) : Nat → List Nat → Option (List Text)
  | 0, _ => some []
  | _ + 1, [] => some []
  | fuel + 1, word :: rest => do
      let (line, rest) ← disassembleOldWord v word rest
      let lines ← disassembleOldWords v fuel rest
      some (line :: lines)

def Vars.pbiSource (v : Vars) (pbi : List Nat) : Option (List Text) :=
  if pbi = [] then some []
  else do
    let all := words v.littleendian (pbi ++ [0, 0, 0])
    let lines ← if v.pbiformat = 2 then disassembleWords all.length all
      else disassembleOldWords v all.length all
    some ([[], ".pbi".toList] ++ lines ++ [".end".toList])

-- `int` of an empty bit string raises.
def bitNumber (bitbytes : List Nat) : Option Nat :=
  if bitbytes = [] then none else some (number (bitbytes.flatMap (binary 8)).reverse)

def Vars.createSource (v : Vars) (rcwi : Text) (symbols : List Field) (binary : List Nat) : Option Printed := do
  let binary ← v.unswapped binary
  let (bitbytes, pbi) ← v.split binary
  let bitbytes := if v.classicbitnumbers then bitbytes.map (mirror 8) else bitbytes
  let bits ← bitNumber bitbytes
  let (lines, left) := decodeFields symbols bits
  let section_ ← v.pbiSource pbi
  some ⟨["#include <".toList ++ rcwi ++ ['>'], []] ++ lines ++ section_, unknownBits left⟩

def isName (c : Char) : Bool := c.isUpper || c.isDigit || c == '_'

def headerLine : Text → Option Text
  | '.' :: t => if t.takeWhile Char.isAlpha = [] then none else some (t.takeWhile Char.isAlpha)
  | _ => none

def variableLine : Text → Option (Text × Text)
  | '%' :: t =>
      let identifier := t.takeWhile Char.isAlphanum
      match t.dropWhile Char.isAlphanum with
      | '=' :: c :: value =>
          if 2 ≤ identifier.length ∧ identifier.head?.any Char.isAlpha then some (identifier, c :: value)
          else none
      | _ => none
  | _ => none

def named (mark : Char) (l : Text) : Option (Text × Text × Text) :=
  let name := l.takeWhile isName
  match l.dropWhile isName with
  | c :: t =>
      if c = mark ∧ name ≠ [] ∧ t.takeWhile Char.isAlphanum ≠ [] then
        some (name, t.takeWhile Char.isAlphanum, t.dropWhile Char.isAlphanum)
      else none
  | [] => none

def singleLine (l : Text) : Option (Text × Text) :=
  match named '[' l with
  | some (name, position, ']' :: _) => some (name, position)
  | _ => none

def rangedLine (l : Text) : Option (Text × Text × Text) :=
  match named '[' l with
  | some (name, first, ':' :: t) =>
      match t.takeWhile Char.isAlphanum, t.dropWhile Char.isAlphanum with
      | c :: cs, ']' :: _ => some (name, first, c :: cs)
      | _, _ => none
  | _ => none

def assignmentLine (l : Text) : Option (Text × Text) := (named '=' l).map fun m => (m.1, m.2.1)

def store {β : Type} (dict : List (Text × β)) (key : Text) (value : β) : List (Text × β) :=
  dict.filter (·.1 ≠ key) ++ [(key, value)]

structure Parser where
  symbols : List Field
  assignments : List (Text × Nat)
  vars : List (Text × Text)
  subsection : Option (Text × List Text)
  pbi : List Nat
  printed : List String
  deriving DecidableEq, Repr

def Parser.print (p : Parser) (messages : List String) : Parser := { p with printed := p.printed ++ messages }

def Parser.overlaps (p : Parser) (s : Field) : List String :=
  if p.symbols.any (·.name = s.name) then
    ["Error: Duplicate bitfield definition for " ++ String.ofList s.name]
  else
    (p.symbols.filter fun t => t.first ≤ s.first ∧ s.first ≤ t.last ∨ t.first ≤ s.last ∧ s.last ≤ t.last).map
      fun t => "Error: Bitfield " ++ String.ofList s.name ++ " overlaps with " ++ String.ofList t.name

def Parser.define (p : Parser) (s : Field) : Parser :=
  { p.print (p.overlaps s) with symbols := p.symbols.filter (·.name ≠ s.name) ++ [s] }

def Parser.assign (p : Parser) (warnings : Bool) (name : Text) (value : Nat) : Parser :=
  if p.symbols.any (·.name = name) then
    let messages := if warnings ∧ p.assignments.any (·.1 = name) then
      ["Warning: Duplicate assignment for bitfield " ++ String.ofList name] else []
    { p.print messages with assignments := store p.assignments name value }
  else p.print ["Error: Unknown bitfield " ++ String.ofList name]

def unknownLine (l : Text) : String := "Error: unknown command " ++ String.ofList (l.intersperse ' ')

-- `parseSubsection` is given the header and the lines of a finished subsection.
def Parser.parseSourceLine (parseSubsection : Text → List Text → Option (List Nat)) (warnings : Bool)
    (p : Parser) (l2 : Text) : Option Parser :=
  let l := l2.filter fun c => !isSpace c
  if l = [] then some p
  else
    match headerLine l, p.subsection with
    | some _, some (header, lines) =>
        (parseSubsection header lines).map fun pbi => { p with subsection := none, pbi := p.pbi ++ pbi }
    | some header, none => some { p with subsection := some (header, []) }
    | none, some (header, lines) => some { p with subsection := some (header, lines ++ [strip l2]) }
    | none, none =>
        match variableLine l with
        | some (identifier, value) => some { p with vars := store p.vars identifier value }
        | none =>
            match singleLine l with
            | some (name, position) => (intLiteral position).map fun n => p.define ⟨name, n, n⟩
            | none =>
                match rangedLine l with
                | some (name, first, last) => do
                    let first ← intLiteral first
                    let last ← intLiteral last
                    some (p.define ⟨name, first, last⟩)
                | none =>
                    match assignmentLine l with
                    | some (name, value) => (intLiteral value).map fun n => p.assign warnings name n
                    | none => some (p.print [unknownLine l2])

def Parser.parseSource (parseSubsection : Text → List Text → Option (List Nat)) (warnings : Bool) :
    Parser → List Text → Option Parser
  | p, [] => some p
  | p, l :: ls => (p.parseSourceLine parseSubsection warnings l).bind (·.parseSource parseSubsection warnings ls)

end Flexbuild.Rcw
