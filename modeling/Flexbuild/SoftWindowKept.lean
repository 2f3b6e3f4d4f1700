import Flexbuild.SoftReading

/-! Exactly when reading a value does not move the frame window. -/
namespace Flexbuild.SoftCode
open SoftIr (Word CObject CENode)

variable {c : CCode} {e initial offset size : CENode} {code : List CInstruction}

-- The code of an expression: in a statement of its own or one that only tests it, in an assignment to the result
-- array, or where the compiler processes it by itself.
inductive Emits (c : CCode) (e : CENode) : List CInstruction → Prop
  | statement {code : List CInstruction} {c' : CCode} (made : processStatement e c = some (code, c')) : Emits c e code
  | assignment {o : CObject} {code : List CInstruction} {c' : CCode} (array : o.type = .ra)
      (made : processStatement (.dyadic .ass (.objRef o) e) c = some (code, c')) : Emits c e code
  | expression {reg : Option CReg} {code : List CInstruction} {r : CReg} {c' : CCode}
      (made : processExpression e reg false c = some (code, r, c')) : Emits c e code

theorem Emits.emitted (emits : Emits c e code) (accepted : Accepted e) (fresh : c.chksumStored = false) :
    Emitted c e code := by
  cases emits with
  | expression made => exact (direct e made accepted fresh).1
  | statement made =>
    simp only [processStatement, bind, Option.bind_eq_some_iff] at made
    obtain ⟨⟨front, c₁, flag⟩, searched, ⟨rest, reg, c₂⟩, second, parts⟩ := made
    cases parts
    exact stored e accepted (found e searched accepted fresh) second
  | @assignment o code _ array made =>
    simp only [processStatement, bind, Option.bind_eq_some_iff] at made
    obtain ⟨⟨front, c₁, flag⟩, searched, ⟨rest, reg, c₂⟩, second, parts⟩ := made
    cases parts
    simp only [findAndProcessChecksum, bind, Option.bind_eq_some_iff] at searched
    obtain ⟨⟨here, c₃, flag₁⟩, first, ⟨lc, c₄, flag₂⟩, inLeft, ⟨rc, c₅, flag₃⟩, inRight, parts⟩ := searched
    cases parts
    cases first
    cases inLeft
    have right := found e inRight accepted fresh
    change processAssign (.objRef o) e (processExpression e) _ = _ at second
    cases value : constant e with
    | some v =>
      obtain ⟨empty, noFields⟩ := constantPlain value
      simp only [processAssign, value, if_pos array] at second
      cases second
      cases right with
      | none _ => exact .plain empty ⟨[], .other rfl .nil, by simp [noFields]⟩
      | one one _ =>
        rw [empty] at one
        cases one
    | none =>
      simp only [processAssign, value, if_pos array] at second
      obtain ⟨⟨code, r, c₆⟩, processed, parts⟩ := Option.map_eq_some_iff.mp second
      cases parts
      have storing : ∀ i ∈ [storeWr o r], i.neutral true = true := by simp [storeWr, CInstruction.neutral]
      have emitted := (stored e accepted right processed).others storing
      rw [List.append_assoc] at emitted
      exact emitted

def Keeps (code : List CInstruction) (wo : Word) : Prop :=
  ∀ env s, s.wo = wo → ∃ es s', Ends env code s es s' ∧ s'.wo = wo ∧ ∀ r ∈ es, r.Relative wo

theorem keepsOnce {wo : Word} (keeps : Keeps code wo) {env : Env} {s s' : State} {es : List Read} (start : s.wo = wo)
    (ends : Ends env code s es s') : s'.wo = wo ∧ ∀ r ∈ es, r.Relative wo := by
  obtain ⟨fs, t, again, same, relative⟩ := keeps env s start
  obtain ⟨rfl, rfl⟩ := ends.once again
  exact ⟨same, relative⟩

def StillOperands (c : CCode) (e : CENode) : Prop :=
  ∀ initial offset size, (initial, offset, size) ∈ checksums e → (fields initial = [] ∧ fields size = []) ∨
    ∀ env s, s.wo = 0 → value env (processExpression offset none false c.busy) s = 0

theorem plainKeeps (loads : Loads true code e) (parsed : Parsed e) (wo : Word) :
    Keeps code wo ↔ wo = 0 ∨ ¬ Far (fields e) := by
  obtain ⟨l, handles, are⟩ := loads
  have plain := handles.straight
  constructor
  · intro keeps
    have env : Env := ⟨fun _ => 0, fun _ => 0⟩
    have read := Loads.reading ⟨l, handles, are⟩ parsed env ⟨0, 0, wo, fun _ => 0⟩
    obtain ⟨same, _⟩ := keepsOnce keeps rfl (straightEnds plain ⟨0, 0, wo, fun _ => 0⟩)
    refine or_iff_not_imp_right.mpr fun far => ?_
    rw [← same, read.offset.1 (not_not.mp far)]
  · rintro fits env s rfl
    have read := Loads.reading ⟨l, handles, are⟩ parsed env s
    refine ⟨_, _, straightEnds plain s, ?_, read.relative fits⟩
    rcases fits with zero | near
    · rw [read.after zero, zero]
    · exact read.offset.2 near

section Checksum

variable {oc sc ic : List CInstruction} {sr ir : CReg} {env : Env} {s : State}

theorem storeRun (o : CObject) (reg : CReg) (s : State) :
    (execAll env s [storeWr o reg]).wo = s.wo ∧ readsAll env s [storeWr o reg] = [] := ⟨rfl, rfl⟩

structure PrologueRead (env : Env) (s : State) (oc sc ic : List CInstruction) (sr ir : CReg) (initial size : CENode) :
    Prop where
  ofSize : Reading env (execAll env s oc) sc (fields size)
  ofInitial : Reading env (execAll env s (oc ++ sc ++ [storeWr (gpr2Object 5 5) sr])) ic (fields initial)
  reads : readsAll env s (prologue oc sc ic sr ir) = readsAll env s oc ++ readsAll env (execAll env s oc) sc ++
    readsAll env (execAll env s (oc ++ sc ++ [storeWr (gpr2Object 5 5) sr])) ic

theorem prologueRead (parsedInitial : Parsed initial) (parsedSize : Parsed size) (sizeLoads : Loads false sc size)
    (initialLoads : Loads false ic initial) : PrologueRead env s oc sc ic sr ir initial size := by
  refine ⟨sizeLoads.reading parsedSize env _, initialLoads.reading parsedInitial env _, ?_⟩
  unfold prologue
  rw [readsAllAppend, readsAllAppend _ ic, readsAllAppend _ [storeWr _ sr], readsAllAppend oc, (storeRun _ sr _).2,
    (storeRun _ ir _).2, List.append_nil, List.append_nil]

theorem PrologueRead.still (read : PrologueRead env s oc sc ic sr ir initial size)
    (none : fields size = [] ∨ (execAll env s oc).wo = 0) :
    (execAll env s (oc ++ sc ++ [storeWr (gpr2Object 5 5) sr])).wo = (execAll env s oc).wo := by
  rw [execAllAppend, (storeRun _ sr _).1, execAllAppend]
  rcases none with empty | zero
  · refine read.ofSize.offset.2 ?_
    rw [empty]
    rintro ⟨o, ⟨⟩, _⟩
  · rw [read.ofSize.after zero, zero]

theorem PrologueRead.base (read : PrologueRead env s oc sc ic sr ir initial size)
    (all : ∀ r ∈ readsAll env s (prologue oc sc ic sr ir), r.Relative 0)
    (some_ : ¬ (fields initial = [] ∧ fields size = [])) :
    (execAll env s oc).wo = 0 := by
  rw [read.reads] at all
  by_cases empty : fields size = []
  · have first := read.ofInitial.first 0 (fun r member => all r (List.mem_append_right _ member)) fun none =>
      some_ ⟨none, empty⟩
    rwa [read.still (.inl empty)] at first
  · exact read.ofSize.first 0 (fun r member => all r (List.mem_append_left _ (List.mem_append_right _ member))) empty

theorem PrologueRead.relative (read : PrologueRead env s oc sc ic sr ir initial size)
    (front : ∀ r ∈ readsAll env s oc, r.Relative 0)
    (fits : (fields initial = [] ∧ fields size = []) ∨ (execAll env s oc).wo = 0) :
    ∀ r ∈ readsAll env s (prologue oc sc ic sr ir), r.Relative 0 := by
  rw [read.reads]
  intro r member
  rcases fits with ⟨noInitial, noSize⟩ | zero
  · rw [read.ofSize.nothing noSize, read.ofInitial.nothing noInitial, List.append_nil, List.append_nil] at member
    exact front r member
  · have still := (read.still (.inr zero)).trans zero
    rw [List.mem_append, List.mem_append] at member
    rcases member with (inOffset | inSize) | inInitial
    · exact front r inOffset
    · have here := read.ofSize.relative (.inl zero) r inSize
      rwa [zero] at here
    · have here := read.ofInitial.relative (.inl still) r inInitial
      rwa [still] at here

theorem OffsetRead.value (read : OffsetRead env s oc offset c) (zero : s.wo = 0) :
    (execAll env s oc).wo = SoftCode.value env (processExpression offset none false c) s := by
  by_cases far : Far (fields offset)
  · exact read.added.1 far
  · rw [read.added.2 far, zero]
    exact BitVec.zero_add _

theorem checksumKeeps {before rest : List CInstruction} (parsed : Parsed e) (one : checksums e = [(initial, offset, size)])
    (fresh : c.chksumStored = false) (first : ChecksumCode initial offset size c before)
    (loads : Loads true rest e) (wo : Word) :
    Keeps (before ++ rest) wo ↔ wo = 0 ∧ StillOperands c e := by
  obtain ⟨parsedInitial, parsedOffset, parsedSize⟩ := operandsParsed parsed one
  have only : StillOperands c e ↔ (fields initial = [] ∧ fields size = []) ∨
      ∀ env s, s.wo = 0 → SoftCode.value env (processExpression offset none false c.busy) s = 0 := by
    simp only [StillOperands, one, List.mem_singleton, Prod.mk.injEq]
    constructor
    · exact fun all => all _ _ _ ⟨rfl, rfl, rfl⟩
    · rintro fits _ _ _ ⟨rfl, rfl, rfl⟩
      exact fits
  rw [only]
  cases first with
  | @made oc sc ic sr ir ofOffset ofSize ofInitial =>
    obtain ⟨_, sizeLoads, _⟩ := operandMade (c := c.busy) parsedSize fresh busyUsed ofSize
    obtain ⟨_, initialLoads, _⟩ := operandMade (c := c.busy) parsedInitial fresh busyUsed ofInitial
    have front (env : Env) (s : State) := offsetRead parsedOffset fresh ofOffset env s
    have read (env : Env) (s : State) : PrologueRead env s oc sc ic sr ir initial size :=
      prologueRead parsedInitial parsedSize sizeLoads initialLoads
    have behind (env : Env) (s : State) := loads.reading parsed env s
    obtain ⟨_, sizeHandles, _⟩ := sizeLoads
    obtain ⟨_, initialHandles, _⟩ := initialLoads
    obtain ⟨_, restHandles, _⟩ := loads
    have plain (env : Env) (s : State) : Straight (prologue oc sc ic sr ir) :=
      prologueStraight (front env s).straight sizeHandles.straight initialHandles.straight
    constructor
    · intro keeps
      have runs (env : Env) (s : State) (start : s.wo = wo) : wo = 0 ∧
          ∀ r ∈ readsAll env s (prologue oc sc ic sr ir), r.Relative wo := by
        obtain ⟨es, s', ends, _, zero, _⟩ := checksumRun (plain env s) restHandles.straight c.uniqueName s
        obtain ⟨same, relative⟩ := keepsOnce keeps start ends
        refine ⟨same.symm.trans ((behind env s').after zero), fun r member => relative r ?_⟩
        exact List.mem_append_left _ (List.mem_append_left _ member)
      obtain ⟨zero, _⟩ := runs ⟨fun _ => 0, fun _ => 0⟩ ⟨0, 0, wo, fun _ => 0⟩ rfl
      subst zero
      refine ⟨rfl, or_iff_not_imp_left.mpr fun some_ env s start => ?_⟩
      rw [← (front env s).value start]
      exact (read env s).base (runs env s start).2 some_
    · rintro ⟨rfl, fits⟩ env s start
      obtain ⟨es, s', ends, quiet, zero, _⟩ := checksumRun (plain env s) restHandles.straight c.uniqueName s
      refine ⟨_, _, ends, (behind env s').after zero, fun r member => ?_⟩
      rw [List.mem_append, List.mem_append] at member
      rcases member with (inFront | inLoop) | inRest
      · refine (read env s).relative ((front env s).relative start) (fits.imp id fun none => ?_) r inFront
        rw [(front env s).value start]
        exact none env s start
      · rintro o field
        rw [quiet r inLoop] at field
        cases field
      · have here := (behind env s').relative (.inl zero) r inRest
        rwa [zero] at here

end Checksum

theorem windowKeptExactly (accepted : Accepted e) (fresh : c.chksumStored = false) (emits : Emits c e code) (wo : Word) :
    Keeps code wo ↔ (wo = 0 ∨ (checksums e = [] ∧ ∀ o ∈ fields e, o.stop < 128)) ∧ StillOperands c e := by
  have near : (∀ o ∈ fields e, o.stop < 128) ↔ ¬ Far (fields e) := by
    simp only [Far, not_exists, not_and, Nat.not_le]
  rw [near]
  cases emits.emitted accepted fresh with
  | plain empty loads =>
    have still : StillOperands c e := by
      intro _ _ _ member
      rw [empty] at member
      cases member
    rw [plainKeeps loads accepted.parsed]
    simp only [empty, true_and, still, and_true]
  | checksum one first loads =>
    rw [checksumKeeps accepted.parsed one fresh first loads]
    simp only [one, List.cons_ne_nil, false_and, or_false]

def nextByte : CENode := .objRef ⟨.fw, 128, 135⟩

def nextByteCode : List CInstruction :=
  [.addSvToWo 1, .nop, .loadBitsFwToWr .wr1 false 120 127 (some ⟨.fw, 128, 135⟩), .loadSvToWo 0]

theorem nextByteEmits : Accepted nextByte ∧ Emits ⟨false, 0, 0⟩ nextByte nextByteCode :=
  ⟨⟨fun _ => by decide, rfl⟩, @Emits.expression _ _ none _ .wr1 ⟨false, 0, 0⟩ rfl⟩

theorem windowKeptExactlyNextByte : Keeps nextByteCode 0 ∧ ¬ Keeps nextByteCode 1 := by
  have each := windowKeptExactly nextByteEmits.1 rfl nextByteEmits.2
  have still : StillOperands ⟨false, 0, 0⟩ nextByte := by
    rintro _ _ _ ⟨⟩
  refine ⟨(each 0).mpr ⟨.inl rfl, still⟩, fun keeps => ?_⟩
  rcases ((each 1).mp keeps).1 with zero | ⟨_, near⟩
  · exact absurd zero (by decide)
  · exact absurd (near ⟨.fw, 128, 135⟩ (by simp [nextByte, fields])) (by decide)

theorem windowMoved : ¬ ∀ c e code wo, Accepted e → c.chksumStored = false → Emits c e code → Keeps code wo := by
  intro all
  have keeps := all ⟨false, 0, 0⟩ nextByte nextByteCode 1 nextByteEmits.1 rfl nextByteEmits.2
  have ends := @straightEnds ⟨fun _ => 0, fun _ => 0⟩ nextByteCode (by simp [nextByteCode, Straight, CInstruction.straight])
    ⟨0, 0, 1, fun _ => 0⟩
  have zero : (0 : Word) = 1 := (keepsOnce keeps rfl ends).1
  exact absurd zero (by decide)

end Flexbuild.SoftCode
