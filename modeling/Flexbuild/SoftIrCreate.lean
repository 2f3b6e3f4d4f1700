import Mathlib.Data.List.Basic
import Flexbuild.SoftIr

/-! The elements of a protocol's execute section, and the statements, labels and jumps that are
created for them. An element holds its expressions as the trees they are read to, where the name
of the header size already stands for its value. -/
namespace Flexbuild.SoftIr
open Numerals Traces

-- `stringToInt` makes nothing of a value that is not a number.
mutual
inductive CExecuteExpression where
  | assign (name value : CENode) (fwoffset : Option CENode)
  | headerSize (value : CENode)
  | if_ (expr : CENode) (ifTrue ifFalse : Option (List CExecuteExpression))
  | loop (expr : CENode) (loopBody : List CExecuteExpression)
  | inline_ (data : Text)
  | switch (expr : CENode) (cases : List CExecuteCase)
      (defaultCase : Option (List CExecuteExpression))

inductive CExecuteCase where
  | mk (value : Option Word) (maxValue : Option CENode) (ifCase : List CExecuteExpression)
end

inductive Refusal where
  | shiftByImm | shiftByValue | concatValue | addcSize | checksumSecondThird | checksumFirst
  | expectedCondNot | expectedCondAnd | unexpectedCond
  | unallowedLvalueAssign | unexpectedCondAssign
  | ifNoTrue | expectedCond
  | switchNoCase | caseNoInt | unexpectedCondSwitch
  deriving DecidableEq, Repr

def CObject.span (o : CObject) : Nat := (o.stop + 2 ^ 32 - o.start) % 2 ^ 32

def CObject.isMoreThan16 (o : CObject) : Bool :=
  match o.type with
  | .pa => decide (1 < o.span)
  | .ra => decide (1 < o.span)
  | .fw => decide (15 < o.span)
  | _ => false

def CENode.isMoreThan16 : CENode → Bool
  | .intConst v => v &&& 0xFFFFFFFFFFFF0000 != 0
  | .objRef o => o.isMoreThan16
  | _ => false

def CENode.isCond : CENode → Bool
  | .dyadic .less _ _ => true
  | .dyadic .greater _ _ => true
  | .dyadic .equ _ _ => true
  | .dyadic .notEqu _ _ => true
  | .dyadic .lessEqu _ _ => true
  | .dyadic .greaterEqu _ _ => true
  | .dyadic .and _ _ => true
  | .dyadic .or _ _ => true
  | .monadic .not _ => true
  | _ => false

def CENode.isConst : CENode → Bool
  | .intConst _ => true
  | _ => false

def CENode.intval : CENode → Word
  | .intConst v => v
  | _ => 0

def CENode.isObject : CENode → Bool
  | .objRef _ => true
  | _ => false

def checkShift (r : CENode) : Except Refusal Unit := do
  if !r.isConst then
    throw .shiftByImm
  if r.intval < 1 || 64 < r.intval then
    throw .shiftByValue

-- The operands that an operator allows. The third test of `checksumLoc` is an `or` to the others.
def checkOperands : CENode → Except Refusal Unit
  | .dyadic .shl _ r => checkShift r
  | .dyadic .shr _ r => checkShift r
  | .dyadic .shlAnd _ r => if !r.isConst && !r.isObject then throw .concatValue else pure ()
  | .dyadic .addCarry l r =>
      if l.isMoreThan16 || r.isMoreThan16 then throw .addcSize else pure ()
  | .dyadic .checksumLoc l r =>
      if l.isConst && r.isConst && decide (256 < l.intval) || decide (256 < r.intval) then
        throw .checksumSecondThird
      else pure ()
  | .dyadic .checksum l _ =>
      if l.isConst && decide (0xFFFF < l.intval) then throw .checksumFirst else pure ()
  | _ => pure ()

def checkMix : CENode → Except Refusal Unit
  | .monadic .not e => if e.isCond then pure () else throw .expectedCondNot
  | .dyadic .and l r => if l.isCond && r.isCond then pure () else throw .expectedCondAnd
  | .dyadic .or l r => if l.isCond && r.isCond then pure () else throw .expectedCondAnd
  | .monadic _ e => if e.isCond then throw .unexpectedCond else pure ()
  | .dyadic _ l r => if l.isCond || r.isCond then throw .unexpectedCond else pure ()
  | _ => pure ()

def checkExprValue : CENode → Except Refusal Unit
  | .dyadic type l r => do
      checkOperands (.dyadic type l r)
      checkMix (.dyadic type l r)
      checkExprValue l
      checkExprValue r
  | .monadic type e => do
      checkMix (.monadic type e)
      checkExprValue e
  | _ => pure ()

def createIRExprValue (e : CENode) : Except Refusal CENode := do
  checkExprValue e
  pure e

def createIRCond (e : CENode) : Except Refusal CENode := do
  let e ← createIRExprValue e
  if e.isCond then pure e else throw .expectedCond

def createIRAssignOne (name value : CENode) : Except Refusal (List CStatement) := do
  match ← createIRExprValue name with
  | .objRef o =>
      if o.type = .ra ∨ o.type = .wo then
        let right ← createIRExprValue value
        if right.isCond then
          throw .unexpectedCondAssign
        pure [.expression (.dyadic .ass (.objRef o) right)]
      else throw .unallowedLvalueAssign
  | _ => throw .unallowedLvalueAssign

def windowOffset : CENode := .objRef ⟨.wo, 0, 0⟩

def createIRAssign (name value : CENode) : Option CENode → Except Refusal (List CStatement)
  | none => createIRAssignOne name value
  | some fwoffset => do
      let before ← createIRAssignOne windowOffset fwoffset
      let statement ← createIRAssignOne name value
      let behind ← createIRAssignOne windowOffset (.intConst 0)
      pure (before ++ statement ++ behind)

def flushTable (expr : CENode) (table : List (Nat × CLabel)) : List CStatement :=
  if table.isEmpty then [] else [.switch expr table]

def wide (value : Word) : Bool := value &&& 0xFFFFFFFFFFFF0000 != 0

def createIRTest (expr : CENode) (table : List (Nat × CLabel)) (count : Nat) (value : Word)
    (maxValue : Option CENode) (last : Bool) :
    Except Refusal (List CStatement × List (Nat × CLabel) × Nat) :=
  let trueL := CLabel.named (uniqueName count)
  if wide value then do
    let equal ← createIRExprValue (.dyadic .equ (.intConst value) expr)
    pure (flushTable expr table ++ [.ifGoto trueL equal], [], count)
  else match maxValue with
    | some maxValue => do
        let falseL := uniqueName (count + 1)
        let below ← createIRExprValue (.dyadic .greater (.intConst value) expr)
        let above ← createIRExprValue (.dyadic .less maxValue expr)
        pure (flushTable expr table ++ [.ifGoto (.named falseL) below, .ifGoto (.named falseL) above,
          .goto trueL .initial none, .label falseL], [], count + 1)
    | none => do
        if table.isEmpty then
          let expr ← createIRExprValue expr
          if expr.isCond then
            throw .unexpectedCondSwitch
        let table := table ++ [(value.toNat % 2 ^ 16, trueL)]
        if table.length = 4 || last then
          pure ([.switch expr table], [], count)
        else pure ([], table, count)

mutual
def createIRExpression (count : Nat) :
    CExecuteExpression → Except Refusal (List CStatement × Nat)
  | .assign name value fwoffset => do
      let statements ← createIRAssign name value fwoffset
      pure (statements, count)
  | .headerSize value => do
      checkExprValue value
      pure ([], count)
  | .inline_ data => pure ([.inline_ data], count)
  | .if_ _ none _ => throw .ifNoTrue
  | .if_ expr (some ifTrue) none => do
      let cond ← createIRCond expr
      let label1 := uniqueName (count + 1)
      let (body, next) ← createIRExpressions (count + 1) ifTrue
      pure (.ifNGoto (.named label1) cond :: body ++ [.label label1], next)
  | .if_ expr (some ifTrue) (some ifFalse) => do
      let cond ← createIRCond expr
      let label1 := uniqueName (count + 1)
      let (others, next) ← createIRExpressions (count + 1) ifFalse
      let label2 := uniqueName (next + 1)
      let (body, next) ← createIRExpressions (next + 1) ifTrue
      pure (.ifGoto (.named label1) cond :: others ++ .goto (.named label2) .initial none ::
        .label label1 :: body ++ [.label label2], next)
  | .loop expr loopBody => do
      let label1 := uniqueName (count + 1)
      let cond ← createIRCond expr
      let label2 := uniqueName (count + 2)
      let (body, next) ← createIRExpressions (count + 2) loopBody
      pure (.label label1 :: .ifNGoto (.named label2) cond :: body ++
        [.goto (.named label1) .initial none, .label label2], next)
  | .switch expr cases defaultCase => do
      if cases.isEmpty then
        throw .switchNoCase
      let finalL := uniqueName (count + 1)
      let (tests, executes, next) ← createIRCases finalL expr [] (count + 1) cases
      let (otherwise, next) ← match defaultCase with
        | none => pure ([], next)
        | some defaultCase => createIRExpressions next defaultCase
      pure (tests ++ otherwise ++ .goto (.named finalL) .initial none :: executes ++
        [.label finalL], next)

def createIRExpressions (count : Nat) :
    List CExecuteExpression → Except Refusal (List CStatement × Nat)
  | [] => pure ([], count)
  | e :: rest => do
      let (first, next) ← createIRExpression count e
      let (others, next) ← createIRExpressions next rest
      pure (first ++ others, next)

def createIRCases (finalL : Text) (expr : CENode) (table : List (Nat × CLabel)) (count : Nat) :
    List CExecuteCase → Except Refusal (List CStatement × List CStatement × Nat)
  | [] => pure ([], [], count)
  | .mk none _ _ :: _ => throw .caseNoInt
  | .mk (some value) maxValue ifCase :: rest => do
      let (test, table, next) ←
        createIRTest expr table (count + 1) value maxValue rest.isEmpty
      let (body, next) ← createIRExpressions next ifCase
      let (tests, executes, next) ← createIRCases finalL expr table next rest
      pure (test ++ tests, .label (uniqueName (count + 1)) :: body ++
        .goto (.named finalL) .initial none :: executes, next)
end

end Flexbuild.SoftIr
