import Mathlib.Data.List.Basic
import Flexbuild.Numerals
import Flexbuild.Traces

/-! The intermediate form of the soft-parser compiler: expression trees, statements with labels
and jumps, and what a list of statements does. The objects and the operators other than the
exclusive or, the complement and the conditions may mean anything. -/
namespace Flexbuild.SoftIr
open Numerals Traces

abbrev Word := BitVec 64

inductive ObjectType where
  | fw | ra | pa | wo | local_
  deriving DecidableEq, Repr

structure CObject where
  type : ObjectType
  start : Nat
  stop : Nat
  deriving DecidableEq, Repr

inductive Dyadic where
  | less | greater | lessEqu | greaterEqu | equ | notEqu
  | add | addCarry | sub | bitAnd | xor | bitOr | shl | shr | shlAnd
  | ass | checksum | checksumLoc
  | and | or
  deriving DecidableEq, Repr

inductive Monadic where
  | not | bitNot
  deriving DecidableEq, Repr

inductive CENode where
  | objRef (o : CObject)
  | intConst (v : Word)
  | dyadic (type : Dyadic) (left right : CENode)
  | monadic (type : Monadic) (node : CENode)
  deriving DecidableEq, Repr

inductive ProtoType where
  | eth | llcSnap | vlan | pppoePpp | mpls | ipv4 | ipv6 | otherL3 | gre | minencap | tcp | udp
  | ipsecAh | ipsecEsp | sctp | dccp | otherL4 | nextEth | nextIp | return_ | endParse
  deriving DecidableEq, Repr

inductive CLabel where
  | proto (p : ProtoType)
  | named (name : Text)
  deriving DecidableEq, Repr

structure CStatementFlags where
  confirm : Bool
  advanceJump : Bool
  afterSection : Bool
  lastStatement : Bool
  confirmLcvDefault : Bool
  confirmLcv1 : Bool
  confirmLcv2 : Bool
  confirmLcv3 : Bool
  deriving DecidableEq, Repr

def CStatementFlags.initial : CStatementFlags :=
  ⟨true, true, false, false, true, false, false, false⟩

-- A jump out of the protocol is a `goto` to a protocol's label.
inductive CStatement where
  | nop
  | empty
  | label (name : Text)
  | goto (label : CLabel) (flags : CStatementFlags) (expr : Option CENode)
  | expression (expr : CENode)
  | switch (expr : CENode) (table : List (Nat × CLabel))
  | inline_ (text : Text)
  | ifGoto (label : CLabel) (expr : CENode)
  | ifNGoto (label : CLabel) (expr : CENode)
  | sectionEnd (label : CLabel) (flags : CStatementFlags) (expr : CENode)
  deriving DecidableEq, Repr

def CStatement.expr : CStatement → Option CENode
  | .goto _ _ e => e
  | .expression e => some e
  | .switch e _ => some e
  | .ifGoto _ e => some e
  | .ifNGoto _ e => some e
  | .sectionEnd _ _ e => some e
  | _ => none

def CStatement.setExpr (e : CENode) : CStatement → CStatement
  | .goto l flags (some _) => .goto l flags (some e)
  | .expression _ => .expression e
  | .switch _ table => .switch e table
  | .ifGoto l _ => .ifGoto l e
  | .ifNGoto l _ => .ifNGoto l e
  | .sectionEnd l flags _ => .sectionEnd l flags e
  | s => s

def CStatement.defines : CStatement → Option Text
  | .label name => some name
  | _ => none

def CLabel.names : CLabel → List Text
  | .proto _ => []
  | .named name => [name]

def CStatement.targets : CStatement → List Text
  | .goto l _ _ => l.names
  | .switch _ table => table.flatMap (fun c => c.2.names)
  | .ifGoto l _ => l.names
  | .ifNGoto l _ => l.names
  | _ => []

def labels (ss : List CStatement) : List Text := ss.filterMap CStatement.defines

def targets (ss : List CStatement) : List Text := ss.flatMap CStatement.targets

-- `createUniqueName`, for the count after its increment.
def uniqueName (n : Nat) : Text := "LABEL_".toList ++ Nat.toDigits 10 n

inductive Operand where
  | object (o : CObject)
  | const (v : Word)
  | other
  deriving DecidableEq, Repr

def CENode.operand : CENode → Operand
  | .objRef o => .object o
  | .intConst v => .const v
  | _ => .other

structure Meaning (σ : Type) where
  object : CObject → σ → Word
  binary : Dyadic → Operand → Word → Word → σ → Word
  assign : CObject → Word → σ → σ
  inline_ : Text → σ → σ
  endSection : CStatementFlags → Word → σ → σ

variable {σ : Type}

def eval (m : Meaning σ) (s : σ) : CENode → Word
  | .objRef o => m.object o s
  | .intConst v => v
  | .dyadic .xor l r => eval m s l ^^^ eval m s r
  | .dyadic type l r => m.binary type r.operand (eval m s l) (eval m s r) s
  | .monadic .bitNot e => ~~~ eval m s e
  | .monadic .not _ => 0

def holds (m : Meaning σ) (s : σ) : CENode → Bool
  | .dyadic .less l r => decide (eval m s l < eval m s r)
  | .dyadic .greater l r => decide (eval m s r < eval m s l)
  | .dyadic .lessEqu l r => decide (eval m s l ≤ eval m s r)
  | .dyadic .greaterEqu l r => decide (eval m s r ≤ eval m s l)
  | .dyadic .equ l r => decide (eval m s l = eval m s r)
  | .dyadic .notEqu l r => decide (eval m s l ≠ eval m s r)
  | .dyadic .and l r => holds m s l && holds m s r
  | .dyadic .or l r => holds m s l || holds m s r
  | .monadic .not e => !holds m s e
  | _ => false

inductive Event where
  | assign (o : CObject) (v : Word)
  | value (v : Word)
  | inline_ (text : Text)
  | external (p : ProtoType) (flags : CStatementFlags) (v : Option Word)
  | sectionEnd (label : CLabel) (flags : CStatementFlags) (v : Word)
  | missing (name : Text)
  | finish
  deriving DecidableEq, Repr

inductive Next (σ : Type) where
  | fall (s : σ)
  | jump (l : CLabel) (flags : CStatementFlags) (v : Option Word)
  | halt

def performs (m : Meaning σ) (s : σ) : CENode → Event × σ
  | .dyadic .ass (.objRef o) r => (.assign o (eval m s r), m.assign o (eval m s r) s)
  | e => (.value (eval m s e), s)

def exec (m : Meaning σ) (s : σ) : CStatement → Option Event × Next σ
  | .nop => (none, .fall s)
  | .empty => (none, .fall s)
  | .label _ => (none, .fall s)
  | .goto l flags e => (none, .jump l flags (e.map (eval m s)))
  | .expression e => (some (performs m s e).1, .fall (performs m s e).2)
  | .switch e table =>
      match table.find? (fun c => decide (BitVec.ofNat 64 c.1 = eval m s e)) with
      | some c => (none, .jump c.2 .initial none)
      | none => (none, .fall s)
  | .inline_ text => (some (.inline_ text), .fall (m.inline_ text s))
  | .ifGoto l e => (none, if holds m s e then .jump l .initial none else .fall s)
  | .ifNGoto l e => (none, if holds m s e then .fall s else .jump l .initial none)
  | .sectionEnd l flags e =>
      (some (.sectionEnd l flags (eval m s e)),
        if flags.lastStatement then .halt else .fall (m.endSection flags (eval m s e) s))

def findLabel (name : Text) : List CStatement → Option (List CStatement)
  | [] => none
  | s :: rest => if s.defines = some name then some rest else findLabel name rest

inductive Config (σ : Type) where
  | at_ (rest : List CStatement) (s : σ)
  | leaving (e : Event)
  | halted

def goTo (whole : List CStatement) (s : σ) (flags : CStatementFlags) (v : Option Word) :
    CLabel → Config σ
  | .proto p => .leaving (.external p flags v)
  | .named name =>
      match findLabel name whole with
      | some rest => .at_ rest s
      | none => .leaving (.missing name)

def after (whole rest : List CStatement) (s : σ) : Next σ → Config σ
  | .fall s => .at_ rest s
  | .jump l flags v => goTo whole s flags v l
  | .halt => .halted

def machine (m : Meaning σ) (whole : List CStatement) : Machine (Config σ) Event
  | .at_ [] _ => some (none, .leaving .finish)
  | .at_ (c :: rest) s => some ((exec m s c).1, after whole rest s (exec m s c).2)
  | .leaving e => some (some e, .halted)
  | .halted => none

def Does (m : Meaning σ) (whole : List CStatement) (s : σ) (es : List Event) : Prop :=
  Performs (machine m whole) (.at_ whole s) es

section Labels

theorem uniqueNameInj {i j : Nat} (same : uniqueName i = uniqueName j) : i = j := by
  have digits : Nat.toDigits 10 i = Nat.toDigits 10 j := List.append_cancel_left same
  have read := @readFromDigits 10 i (by decide) (by decide)
  rw [digits, readFromDigits (by decide) (by decide)] at read
  exact (Option.some.inj read).symm

theorem findLabelAppend {name : Text} {pre post : List CStatement} :
    findLabel name (pre ++ post) =
      ((findLabel name pre).map (· ++ post)).or (findLabel name post) := by
  induction pre with
  | nil => rfl
  | cons s rest ih =>
    rw [List.cons_append, findLabel, findLabel]
    split
    · rfl
    · exact ih

theorem findLabelNone {name : Text} {ss : List CStatement} (absent : name ∉ labels ss) :
    findLabel name ss = none := by
  induction ss with
  | nil => rfl
  | cons s rest ih =>
    have apart : s.defines ≠ some name := by
      intro same
      exact absent (by rw [labels, List.filterMap_cons, same]; exact List.mem_cons_self)
    rw [findLabel, if_neg apart]
    refine ih (fun mem => absent ?_)
    rw [labels, List.filterMap_cons]
    split
    · exact mem
    · exact List.mem_cons_of_mem _ mem

theorem findLabelSuffix {name : Text} {ss rest : List CStatement}
    (found : findLabel name ss = some rest) : rest <:+ ss := by
  induction ss with
  | nil => cases found
  | cons s more ih =>
    rw [findLabel] at found
    split at found
    · cases found
      exact List.suffix_cons s _
    · exact (ih found).trans (List.suffix_cons s more)

theorem labelsAppend (pre post : List CStatement) :
    labels (pre ++ post) = labels pre ++ labels post := List.filterMap_append

theorem targetsAppend (pre post : List CStatement) :
    targets (pre ++ post) = targets pre ++ targets post := List.flatMap_append

end Labels

end Flexbuild.SoftIr
