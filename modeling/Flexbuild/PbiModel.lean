import Flexbuild.Numerals
import Flexbuild.BitStrings

/-! The PBI section of an RCW file. `buildPbi` turns the lines of a section into words, and
`disassemble` is the loop of `create_source` that prints the lines of a section in the format of
the LS2 family. An exception of Python is `none`; an error that is printed, after which the
section is empty, is `Except.error` with its text. -/
namespace Flexbuild.Rcw
open Numerals BitStrings

structure Vars where
  size : Nat
  pbiformat : Nat
  classicbitnumbers : Bool
  littleendian : Bool
  littleendian64b : Bool
  dont64bswapcrc : Bool
  nocrc : Nat
  sysaddr : Nat
  pbladdr : Nat
  deriving DecidableEq, Repr

inductive Op where
  | wait | write | awrite | poll | loadacwindow | blockcopy | flush
  deriving DecidableEq, Repr

def Op.all : List Op := [.wait, .write, .awrite, .poll, .loadacwindow, .blockcopy, .flush]

def Op.word : Op → Text
  | .wait => ['w', 'a', 'i', 't']
  | .write => ['w', 'r', 'i', 't', 'e']
  | .awrite => ['a', 'w', 'r', 'i', 't', 'e']
  | .poll => ['p', 'o', 'l', 'l']
  | .loadacwindow => ['l', 'o', 'a', 'd', 'a', 'c', 'w', 'i', 'n', 'd', 'o', 'w']
  | .blockcopy => ['b', 'l', 'o', 'c', 'k', 'c', 'o', 'p', 'y']
  | .flush => ['f', 'l', 'u', 's', 'h']

inductive OpSize where
  | plain | b1 | b2 | b4 | short | long
  deriving DecidableEq, Repr

def OpSize.all : List OpSize := [.plain, .b1, .b2, .b4, .short, .long]

def OpSize.suffix : OpSize → Text
  | .plain => []
  | .b1 => ['.', 'b', '1']
  | .b2 => ['.', 'b', '2']
  | .b4 => ['.', 'b', '4']
  | .short => ['.', 's', 'h', 'o', 'r', 't']
  | .long => ['.', 'l', 'o', 'n', 'g']

def isSpace (c : Char) : Bool := c.toNat == 32 || (9 ≤ c.toNat && c.toNat ≤ 13)

def strip (t : Text) : Text := (((t.dropWhile isSpace).reverse.dropWhile isSpace).reverse)

def splitCommas : Nat → Text → List Text
  | 0, _ => []
  | n + 1, t => t.takeWhile (· != ',') :: splitCommas n ((t.dropWhile (· != ',')).drop 1)

structure Match where
  op : Text
  opsize : OpSize
  params : List Text
  deriving DecidableEq, Repr

def OpSize.matches (t : Text) (opsize : OpSize) : Bool :=
  opsize.suffix.isPrefixOf t && ((t.drop opsize.suffix.length).head?.any isSpace)

def matchLine (l : Text) : Option Match :=
  let t := (l ++ [' ']).dropWhile isSpace
  let op := t.takeWhile Char.isLower
  let rest := t.dropWhile Char.isLower
  if op = [] then none
  else
    match OpSize.all.find? (OpSize.matches rest) with
    | none => none
    | some opsize =>
        some ⟨op, opsize, (splitCommas 4 ((rest.drop opsize.suffix.length).dropWhile isSpace)).map strip⟩

structure Parsed where
  op : Op
  opsize : OpSize
  p1 : Option Nat
  p2 : Option Nat
  p3 : Option Nat
  p4 : Option Nat
  deriving DecidableEq, Repr

def unknownCommand (l : Text) : String :=
  "Unknown PBI subsection command \"" ++ String.ofList l ++ "\""

-- `eval` is Python's, on operands that are natural numbers.
def operand (eval : Text → Option Nat) (params : List Text) (i : Nat) : Option (Option Nat) :=
  match params[i]? with
  | none => some none
  | some [] => some none
  | some (c :: cs) => (eval (c :: cs)).map some

def parseLine (eval : Text → Option Nat) (l : Text) : Option (Except String Parsed) :=
  match matchLine l with
  | none => some (.error (unknownCommand l))
  | some m => do
      let p1 ← operand eval m.params 0
      let p2 ← operand eval m.params 1
      let p3 ← operand eval m.params 2
      let p4 ← operand eval m.params 3
      match Op.all.find? (fun op => op.word = m.op) with
      | none => some (.error (unknownCommand l))
      | some op => some (.ok ⟨op, m.opsize, p1, p2, p3, p4⟩)

def packL (little : Bool) (x : Nat) : Option (List Nat) :=
  if x < 2 ^ 32 then some (pack little 4 x) else none

def packWords (little : Bool) : List Nat → Option (List Nat)
  | [] => some []
  | x :: xs => do
      let v ← packL little x
      let vs ← packWords little xs
      some (v ++ vs)

def OpSize.bytes (opsize : OpSize) : Nat := if opsize = .b1 then 1 else 3

def Vars.assemble (v : Vars) (c : Parsed) : Option (Except String (List Nat)) :=
  let emit (words : List Nat) := (packWords v.littleendian words).map Except.ok
  match c.op with
  | .wait =>
      match c.p1 with
      | some p1 =>
          if v.pbiformat = 2 then emit [0x80820000 ||| p1]
          else emit [0x090000c0 ||| (v.pbladdr &&& 0x00ffff00), p1]
      | none => some (.error "Error: \"wait\" instruction requires one parameter")
  | .write =>
      match c.p1, c.p2 with
      | some p1, some p2 =>
          if v.pbiformat = 2 then emit [(c.opsize.bytes <<< 28) ||| p1, p2]
          else emit [0x09000000 + p1, p2]
      | _, _ => some (.error "Error: \"write\" instruction requires two parameters")
  | .awrite =>
      match c.p1, c.p2 with
      | some p1, some p2 =>
          if v.pbiformat = 2 then emit [0x80000000 + (c.opsize.bytes <<< 26) + p1, p2]
          else emit [0x89000000 + p1, p2]
      | _, _ => some (.error "Error: \"awrite\" instruction requires two parameters")
  | .poll =>
      if v.pbiformat ≠ 2 then some (.error "Error: \"poll\" not support for old PBI format")
      else
        match c.p1, c.p2, c.p3 with
        | some p1, some p2, some p3 =>
            let cmd := if c.opsize = .long then 0x81 else 0x80
            emit [0x80000000 + (cmd <<< 24) + p1, p2, p3]
        | _, _, _ => some (.error "Error: \"poll\" instruction requires three parameters")
  | .loadacwindow =>
      if v.pbiformat ≠ 2 then some (.error "Error: \"loadacwindow\" not supported for old PBI format")
      else
        match c.p1 with
        | some p1 => emit [0x80120000 + p1]
        | none => some (.error "Error: \"loadacwindow\" instruction requires one parameter")
  | .blockcopy =>
      if v.pbiformat ≠ 2 then some (.error "Error: \"blockcopy\" not supported for old PBI format")
      else
        match c.p1, c.p2, c.p3, c.p4 with
        | some p1, some p2, some p3, some p4 => emit [0x80000000 + (p1 &&& 0xff), p2, p3, p4]
        | _, _, _, _ => some (.error "Error: \"blockcopy\" instruction requires four parameters")
  | .flush => (packWords false [0x09000000 ||| (v.pbladdr &&& 0x00ffff00), 0]).map Except.ok

def Vars.buildLine (v : Vars) (eval : Text → Option Nat) (l : Text) :
    Option (Except String (List Nat)) :=
  match parseLine eval l with
  | none => none
  | some (.error message) => some (.error message)
  | some (.ok c) => v.assemble c

def Vars.buildPbi (v : Vars) (eval : Text → Option Nat) :
    List Nat → List Text → Option (Except String (List Nat))
  | subsection, [] => some (.ok subsection)
  | subsection, l :: ls =>
      match v.buildLine eval l with
      | none => none
      | some (.error message) => some (.error message)
      | some (.ok bytes) => v.buildPbi eval (subsection ++ bytes) ls

def hex (width n : Nat) : Text := '0' :: 'x' :: padded width 16 n

def joinCommas : List Text → Text
  | [] => []
  | [t] => t
  | t :: ts => t ++ ',' :: joinCommas ts

def command (op : Op) (opsize : OpSize) (params : List Text) : Text :=
  op.word ++ opsize.suffix ++ ' ' :: joinCommas params

def remark (text : String) (word : Nat) (close : String) : Text :=
  text.toList ++ hex 8 word ++ close.toList

-- `struct.unpack` of the next words raises when fewer are left.
def arguments (n : Nat) (words : List Nat) : Option (List Nat × List Nat) :=
  if n ≤ words.length then some (words.take n, words.drop n) else none

def notImplemented (word : Nat) : Text := remark "/* Disassemble not implemented for word " word " */"

def unknownWord (word : Nat) : Text := remark "/* Unknown word " word " */"

def disassembleCommand (word : Nat) (rest : List Nat) : Option (Text × List Nat) :=
  let cmd := (word &&& 0x00ff0000) >>> 16
  if cmd = 0x00 then do
    let (args, rest) ← arguments 3 rest
    some (command .blockcopy .plain (hex 2 (word &&& 0xff) :: args.map (hex 8)), rest)
  else if cmd = 0x10 then some (notImplemented word, rest)
  else if cmd = 0x11 then some (notImplemented word, rest)
  else if cmd = 0x12 then some (command .loadacwindow .plain [hex 8 (word &&& 0x3fff)], rest)
  else if cmd = 0x14 then do
    let (args, rest) ← arguments 2 rest
    some ("loadcondition ".toList ++ joinCommas (args.map (hex 8)), rest)
  else if cmd = 0x20 then some (notImplemented word, rest)
  else if cmd = 0x22 then some (notImplemented word, rest)
  else if cmd = 0x80 then do
    let (args, rest) ← arguments 3 rest
    some (command .poll .short (args.map (hex 8)), rest)
  else if cmd = 0x81 then do
    let (args, rest) ← arguments 3 rest
    some (command .poll .long (args.map (hex 8)), rest)
  else if cmd = 0x82 then some (command .wait .plain [hex 8 (word &&& 0xffff)], rest)
  else if cmd = 0x84 then some (notImplemented word, rest)
  else if cmd = 0x85 then some (notImplemented word, rest)
  else if cmd = 0x8f then do
    let (args, rest) ← arguments 1 rest
    some (remark "/* CRC and Stop command (CRC " (args.headD 0) ")*/", rest)
  else if cmd = 0xff then some ("/* Stop command */".toList, rest.drop 1)
  else some (unknownWord word, rest)

def disassembleWord (word : Nat) (rest : List Nat) : Option (Text × List Nat) :=
  let hdr := (word &&& 0xff000000) >>> 24
  if hdr = 0x80 then disassembleCommand word rest
  else if hdr &&& 0xc0 = 0x00 then
    let cmd := (hdr &&& 0x30) >>> 4
    if cmd = 0x1 then do
      let (args, rest) ← arguments 1 rest
      some (command .write .b1 (hex 8 (word &&& 0x0fffffff) :: args.map (hex 8)), rest)
    else if cmd = 0x3 then do
      let (args, rest) ← arguments 1 rest
      some (command .write .plain (hex 8 (word &&& 0x0fffffff) :: args.map (hex 8)), rest)
    else some (unknownWord word, rest)
  else if hdr &&& 0xc0 = 0x80 then
    let cmd := (hdr &&& 0x3c) >>> 2
    if cmd ≠ 0 then do
      let (args, rest) ← arguments (((1 <<< (cmd - 1)) + 3) / 4) rest
      some (command .awrite .plain (hex 8 (word &&& 0x03ffffff) :: args.map (hex 8)), rest)
    else some (unknownWord word, rest)
  else some (unknownWord word, rest)

def disassembleWords : Nat → List Nat → Option (List Text)
  | 0, _ => some []
  | _ + 1, [] => some []
  | fuel + 1, word :: rest => do
      let (line, rest) ← disassembleWord word rest
      let lines ← disassembleWords fuel rest
      some (line :: lines)

def words (little : Bool) : List Nat → List Nat
  | a :: b :: c :: d :: rest => unpack little [a, b, c, d] :: words little rest
  | _ => []

def disassemble (little : Bool) (pbi : List Nat) : Option (List Text) :=
  let all := words little (pbi ++ [0, 0, 0])
  disassembleWords all.length all

end Flexbuild.Rcw
