import Flexbuild.RcwRoundTrip

/-! The check of a definition against the ones before it. It asks whether an end of the new field
lies in an earlier one that is read upwards. -/
namespace Flexbuild.Rcw
open Numerals

def Field.Meets (t s : Field) : Prop := ∃ p, t.Covers p ∧ s.Covers p

def Field.Hidden (t s : Field) : Prop := t.last < t.first ∨ s.low < t.low ∧ t.high < s.high

def overlapLine (t s : Field) : String :=
  "Error: Bitfield " ++ String.ofList s.name ++ " overlaps with " ++ String.ofList t.name

def definition (l2 : Text) : Option Field :=
  let l := l2.filter fun c => !isSpace c
  match headerLine l, variableLine l, singleLine l with
  | none, none, some (name, position) => (intLiteral position).map fun n => ⟨name, n, n⟩
  | none, none, none =>
      match rangedLine l with
      | some (name, first, last) => do
          let first ← intLiteral first
          let last ← intLiteral last
          some ⟨name, first, last⟩
      | none => none
  | _, _, _ => none

variable {t s : Field} {fields : List Field} {p q : Parser} {l : Text} {lines : List Text} {warnings : Bool}
  {parseSubsection : Text → List Text → Option (List Nat)}

theorem meetsIff (t s : Field) : t.Meets s ↔ t.low ≤ s.high ∧ s.low ≤ t.high := by
  have ordered := lowHigh t
  have orderedNew := lowHigh s
  constructor
  · rintro ⟨p, old, new⟩
    unfold Field.Covers at old new
    omega
  · rintro ⟨below, above⟩
    refine ⟨max t.low s.low, ?_, ?_⟩ <;>
    · unfold Field.Covers
      omega

theorem checkedIff (t s : Field) :
    (t.first ≤ s.first ∧ s.first ≤ t.last ∨ t.first ≤ s.last ∧ s.last ≤ t.last) ↔ t.Meets s ∧ ¬ t.Hidden s := by
  rw [meetsIff]
  unfold Field.Hidden Field.low Field.high
  omega

theorem parseDefinition (outside : p.subsection = none) (read : definition l = some s) :
    p.parseSourceLine parseSubsection warnings l = some (p.define s) := by
  have some_ : l.filter (fun c => !isSpace c) ≠ [] := by
    intro empty
    simp only [definition, empty] at read
    cases read
  unfold definition at read
  unfold Parser.parseSourceLine
  simp only [if_neg some_, outside]
  generalize l.filter (fun c => !isSpace c) = text at read ⊢
  cases header : headerLine text with
  | some h =>
    simp only [header] at read
    cases read
  | none =>
    cases variable_ : variableLine text with
    | some v =>
      simp only [header, variable_] at read
      cases read
    | none =>
      cases single : singleLine text with
      | some found =>
        obtain ⟨name, position⟩ := found
        simp only [header, variable_, single] at read ⊢
        obtain ⟨n, value, rfl⟩ := Option.map_eq_some_iff.mp read
        rw [value]
        rfl
      | none =>
        cases ranged : rangedLine text with
        | none =>
          simp only [header, variable_, single, ranged] at read
          cases read
        | some found =>
          obtain ⟨name, first, last⟩ := found
          simp only [header, variable_, single, ranged] at read ⊢
          obtain ⟨n, begin_, read⟩ := Option.bind_eq_some_iff.mp read
          obtain ⟨m, end_, read⟩ := Option.bind_eq_some_iff.mp read
          cases read
          rw [begin_, Option.bind_eq_bind, Option.bind_some, end_]
          rfl

theorem defineOutside (outside : p.subsection = none) : (p.define s).subsection = none := outside

theorem parseDefinitions (outside : p.subsection = none) (read : lines.mapM definition = some fields) :
    p.parseSource parseSubsection warnings lines = some (fields.foldl Parser.define p) := by
  induction lines generalizing p fields with
  | nil =>
    cases read
    rfl
  | cons l rest later =>
    rw [List.mapM_cons] at read
    obtain ⟨s, first, read⟩ := Option.bind_eq_some_iff.mp read
    obtain ⟨others, after, read⟩ := Option.bind_eq_some_iff.mp read
    cases read
    rw [Parser.parseSource, parseDefinition outside first]
    exact later (defineOutside outside) after

theorem overlapsNew (fresh : ∀ t ∈ p.symbols, t.name ≠ s.name) (m : String) :
    m ∈ p.overlaps s ↔ ∃ t ∈ p.symbols, t.Meets s ∧ ¬ t.Hidden s ∧ m = overlapLine t s := by
  have new : p.symbols.any (·.name = s.name) = false := by
    rw [List.any_eq_false]
    intro t mem
    simp [fresh t mem]
  unfold Parser.overlaps
  rw [new, if_neg Bool.false_ne_true, List.mem_map]
  constructor
  · rintro ⟨t, seen, rfl⟩
    obtain ⟨mem, checked⟩ := List.mem_filter.mp seen
    obtain ⟨meets, open_⟩ := (checkedIff t s).mp (of_decide_eq_true checked)
    exact ⟨t, mem, meets, open_, rfl⟩
  · rintro ⟨t, mem, meets, open_, rfl⟩
    exact ⟨t, List.mem_filter.mpr ⟨mem, decide_eq_true ((checkedIff t s).mpr ⟨meets, open_⟩)⟩, rfl⟩

theorem symbolsNew (fresh : ∀ t ∈ p.symbols, t.name ≠ s.name) : (p.define s).symbols = p.symbols ++ [s] := by
  have kept : p.symbols.filter (·.name ≠ s.name) = p.symbols := by
    rw [List.filter_eq_self]
    intro t mem
    simp [fresh t mem]
  exact congrArg (· ++ [s]) kept

structure Told (p : Parser) (fields : List Field) : Prop where
  symbols : p.symbols = fields
  printed : ∀ m, m ∈ p.printed ↔ ∃ t s, [t, s].Sublist fields ∧ t.Meets s ∧ ¬ t.Hidden s ∧ m = overlapLine t s

theorem sublistSnoc {a b : Field} : [a, b].Sublist (fields ++ [s]) ↔ [a, b].Sublist fields ∨ a ∈ fields ∧ b = s := by
  rw [List.sublist_append_iff]
  constructor
  · rintro ⟨front, back, whole, frontIn, backIn⟩
    rcases List.sublist_singleton.mp backIn with rfl | rfl
    · rw [List.append_nil] at whole
      rw [← whole] at frontIn
      exact .inl frontIn
    · have parts : [a] = front ∧ [b] = [s] := List.append_inj' whole rfl
      rw [← parts.1] at frontIn
      exact .inr ⟨List.singleton_sublist.mp frontIn, List.head_eq_of_cons_eq parts.2⟩
  · rintro (both | ⟨mem, rfl⟩)
    · exact ⟨[a, b], [], by simp, both, by simp⟩
    · exact ⟨[a], [b], rfl, List.singleton_sublist.mpr mem, List.Sublist.refl _⟩

theorem defineTold (told : Told p fields) (fresh : ∀ t ∈ fields, t.name ≠ s.name) :
    Told (p.define s) (fields ++ [s]) := by
  rw [← told.symbols] at fresh
  refine ⟨by rw [symbolsNew fresh, told.symbols], fun m => ?_⟩
  have lines : m ∈ (p.define s).printed ↔ m ∈ p.printed ∨ m ∈ p.overlaps s := List.mem_append
  rw [lines, told.printed, overlapsNew fresh, told.symbols]
  constructor
  · rintro (⟨a, b, pair, rest⟩ | ⟨a, mem, rest⟩)
    · exact ⟨a, b, sublistSnoc.mpr (.inl pair), rest⟩
    · exact ⟨a, s, sublistSnoc.mpr (.inr ⟨mem, rfl⟩), rest⟩
  · rintro ⟨a, b, pair, rest⟩
    rcases sublistSnoc.mp pair with old | ⟨mem, rfl⟩
    · exact .inl ⟨a, b, old, rest⟩
    · exact .inr ⟨a, mem, rest⟩

theorem definitionsTold {more : List Field} (told : Told p fields)
    (distinct : ((fields ++ more).map Field.name).Nodup) : Told (more.foldl Parser.define p) (fields ++ more) := by
  induction more generalizing p fields with
  | nil => simpa using told
  | cons s rest later =>
    have split : fields ++ s :: rest = (fields ++ [s]) ++ rest := by simp
    rw [split] at distinct ⊢
    rw [List.map_append, List.map_append, List.nodup_append, List.nodup_append] at distinct
    have fresh : ∀ t ∈ fields, t.name ≠ s.name := by
      intro t mem
      exact distinct.1.2.2 t.name (List.mem_map_of_mem mem) s.name (List.mem_singleton_self _)
    apply later (defineTold told fresh)
    rw [List.map_append, List.map_append, List.nodup_append, List.nodup_append]
    exact distinct

def Parser.start : Parser := ⟨[], [], [], none, [], []⟩

theorem startTold : Told Parser.start [] := by
  refine ⟨rfl, fun m => ⟨fun mem => absurd mem List.not_mem_nil, ?_⟩⟩
  rintro ⟨t, s, pair, _⟩
  exact absurd (List.sublist_nil.mp pair) (by simp)

theorem overlapsTold (parseSubsection : Text → List Text → Option (List Nat)) (warnings : Bool) (lines : List Text)
    (fields : List Field) (read : lines.mapM definition = some fields) (distinct : (fields.map Field.name).Nodup) :
    ∃ p, Parser.start.parseSource parseSubsection warnings lines = some p ∧ p.symbols = fields ∧
      (∀ m ∈ p.printed, ∃ t s, [t, s].Sublist fields ∧ t.Meets s ∧ m = overlapLine t s) ∧
      ((p.printed = [] → ∀ t s, [t, s].Sublist fields → ¬ t.Meets s) ↔
        ((∃ t s, [t, s].Sublist fields ∧ t.Meets s) →
          ∃ t s, [t, s].Sublist fields ∧ t.Meets s ∧ ¬ t.Hidden s)) := by
  have told : Told (fields.foldl Parser.define Parser.start) fields := definitionsTold startTold distinct
  refine ⟨_, parseDefinitions rfl read, told.symbols, ?_, ?_⟩
  · intro m mem
    obtain ⟨t, s, pair, meets, _, line⟩ := (told.printed m).mp mem
    exact ⟨t, s, pair, meets, line⟩
  · constructor
    · rintro complete ⟨t, s, pair, meets⟩
      by_contra unseen
      refine complete (List.eq_nil_iff_forall_not_mem.mpr fun m mem => ?_) t s pair meets
      obtain ⟨a, b, pair, meets, open_, _⟩ := (told.printed m).mp mem
      exact unseen ⟨a, b, pair, meets, open_⟩
    · intro seen silent t s pair meets
      obtain ⟨a, b, pair, meets, open_⟩ := seen ⟨t, s, pair, meets⟩
      have line := (told.printed _).mpr ⟨a, b, pair, meets, open_, rfl⟩
      rw [silent] at line
      cases line

theorem overlapsToldTwo : ∃ p, Parser.start.parseSource (fun _ _ => none) false
    ["A[0:7]".toList, "B[9:4]".toList] = some p ∧ p.symbols = [⟨['A'], 0, 7⟩, ⟨['B'], 9, 4⟩] ∧ p.printed ≠ [] := by
  obtain ⟨p, parsed, symbols, _, complete⟩ := overlapsTold (fun _ _ => none) false
    ["A[0:7]".toList, "B[9:4]".toList] [⟨['A'], 0, 7⟩, ⟨['B'], 9, 4⟩] (by decide) (by decide)
  have pair : [(⟨['A'], 0, 7⟩ : Field), ⟨['B'], 9, 4⟩].Sublist [⟨['A'], 0, 7⟩, ⟨['B'], 9, 4⟩] := List.Sublist.refl _
  have meets : Field.Meets ⟨['A'], 0, 7⟩ ⟨['B'], 9, 4⟩ := (meetsIff _ _).mpr (by decide)
  refine ⟨p, parsed, symbols, fun silent => ?_⟩
  refine complete.mpr (fun _ => ⟨_, _, pair, meets, ?_⟩) silent _ _ pair meets
  unfold Field.Hidden
  decide

theorem hiddenPairs : Parser.start.parseSource (fun _ _ => none) false
      ["A[5:6]".toList, "B[0:10]".toList] = some ⟨[⟨['A'], 5, 6⟩, ⟨['B'], 0, 10⟩], [], [], none, [], []⟩ ∧
    Parser.start.parseSource (fun _ _ => none) false
      ["A[10:0]".toList, "B[5]".toList] = some ⟨[⟨['A'], 10, 0⟩, ⟨['B'], 5, 5⟩], [], [], none, [], []⟩ ∧
    Field.Meets ⟨['A'], 5, 6⟩ ⟨['B'], 0, 10⟩ ∧ Field.Meets ⟨['A'], 10, 0⟩ ⟨['B'], 5, 5⟩ :=
  ⟨by decide, by decide, ⟨5, by decide, by decide⟩, ⟨5, by decide, by decide⟩⟩

end Flexbuild.Rcw
