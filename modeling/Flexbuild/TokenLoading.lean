import Flexbuild.TokenTemplates
import Mathlib.Data.List.Basic

/-! The call that reads the token is a line of steps, the query of what an object is and the
building of each of its PKCS#11 objects, which ends at the first step that fails. What was built
before it stays in the list of the slot. -/
namespace Flexbuild.TokenObjects
open ByteMemory (Byte)
open ObjectSearch (Rv Attribute)
open SecureObjects (skAttrObjectType skAttrObjectIndex skAttrObjectLabel skAttrKeyType skAttrModulusBits
  skAttrModulus skAttrPublicExponent skKeyPair skPublicKey skkRsa)

def keyClasses (token : Token) (h : Nat) : List ObjectClass :=
  match token.attrs h skAttrObjectType, token.attrs h skAttrKeyType with
  | some objType, some keyType =>
    if uint32Of keyType ≠ skkRsa then []
    else if uint32Of objType = skKeyPair then [.publicKey, .privateKey]
    else if uint32Of objType = skPublicKey then [.publicKey]
    else []
  | _, _ => []

def keyObjects (token : Token) : List Object :=
  token.enumerated.flatMap fun h => (keyClasses token h).map (objectOf token h)

def Whole (token : Token) (h : Nat) : Prop :=
  ∀ c ∈ keyClasses token h, ∀ type ∈ skTypes c, (token.attrs h type).isSome = true

def NoFailure (p : Pattern) : Prop := p.enumerate = false ∧ ∀ j s, p.object j s = false

-- What a call of `get_all_token_objects` is to leave behind `list`: no object and an error, or every object once, also
-- beside one that lacks an attribute.
def CompleteOrAsBefore (token : Token) (p : Pattern) (list : List Object) (result : Rv × List Object) : Prop :=
  ∃ added, result.2 = added ++ list ∧
    (result.1 ≠ .ok ∧ added = [] ∨ added.Perm (keyObjects token)) ∧
    (NoFailure p → ∀ h ∈ token.enumerated, Whole token h →
      ∀ c ∈ keyClasses token h, objectOf token h c ∈ added)

inductive Step where
  | query (j h : Nat)
  | build (j h : Nat) (c : ObjectClass)

def stepsFrom (token : Token) (j : Nat) : List Nat → List Step
  | [] => []
  | h :: rest => .query j h :: (keyClasses token h).map (.build j h) ++ stepsFrom token (j + 1) rest

def steps (token : Token) : List Step := stepsFrom token 0 token.enumerated

def Succeeds (token : Token) (object : Nat → Faults) : Step → Prop
  | .query j h => object j .objectType = false ∧
      (token.attrs h skAttrObjectType).isSome = true ∧ (token.attrs h skAttrKeyType).isSome = true
  | .build j h c => Readable token (object j) h c

def Step.Builds : Step → Prop
  | .query _ _ => False
  | .build _ _ _ => True

def Plain (token : Token) : Step → Prop
  | .query _ _ => True
  | .build _ h c => ∀ type ∈ skTypes c, ¬ Longest token h type

def FailsEmpty (token : Token) (p : Pattern) : Prop :=
  (∃ before failing after, steps token = before ++ failing :: after ∧
    (∀ s ∈ before, Succeeds token p.object s ∧ ¬ s.Builds) ∧ ¬ Succeeds token p.object failing) ∧
  (NoFailure p → ∀ h ∈ token.enumerated, Whole token h → keyClasses token h = [])

def BuildsAll (token : Token) (p : Pattern) : Prop :=
  ∃ before after, steps token = before ++ after ∧
    (∀ s ∈ before, Succeeds token p.object s ∧ Plain token s) ∧ ∀ s ∈ after, ¬ s.Builds

def LoadsWhole (token : Token) (p : Pattern) : Prop :=
  p.enumerate = true ∨ FailsEmpty token p ∨ BuildsAll token p

def taken (token : Token) : Step → List Object
  | .query _ _ => []
  | .build _ h c => [takenOf token h c]

def wanted (token : Token) : Step → List Object
  | .query _ _ => []
  | .build _ h c => [objectOf token h c]

variable {token : Token} {object : Nat → Faults} {p : Pattern} {list : List Object}

structure Ran (token : Token) (object : Nat → Faults) (line : List Step) (list : List Object)
    (result : Rv × List Object) (before after : List Step) : Prop where
  line : line = before ++ after
  passed : ∀ s ∈ before, Succeeds token object s
  list : result.2 = (before.flatMap (taken token)).reverse ++ list
  ended : result.1 = .ok ∧ after = [] ∨
    result.1 ≠ .ok ∧ ∃ failing rest, after = failing :: rest ∧ ¬ Succeeds token object failing

section Runs

theorem Ran.nil : Ran token object [] list (.ok, list) [] [] :=
  ⟨rfl, by simp, by simp, .inl ⟨rfl, rfl⟩⟩

theorem Ran.stop {s : Step} {rest : List Step} {rc : Rv} (fails : ¬ Succeeds token object s) (wrong : rc ≠ .ok) :
    Ran token object (s :: rest) list (rc, list) [] (s :: rest) :=
  ⟨rfl, by simp, by simp, .inr ⟨wrong, s, rest, rfl, fails⟩⟩

theorem Ran.cons {s : Step} {line before after : List Step} {result : Rv × List Object}
    (passes : Succeeds token object s) (ran : Ran token object line (taken token s ++ list) result before after) :
    Ran token object (s :: line) list result (s :: before) after := by
  refine ⟨by rw [ran.line]; rfl, List.forall_mem_cons.mpr ⟨passes, ran.passed⟩, ?_, ran.ended⟩
  rw [ran.list, List.flatMap_cons, List.reverse_append, List.append_assoc]
  cases s <;> rfl

def buildAll (token : Token) (fault : Faults) (h : Nat) : List ObjectClass → List Object → Rv × List Object
  | [], list => (.ok, list)
  | c :: rest, list =>
    match rsaKey token fault h c with
    | .error rc => (rc, list)
    | .ok o => buildAll token fault h rest (o :: list)

theorem readObjectSteps {fault : Faults} {h : Nat} : readObject token fault h list =
    if fault .objectType = false ∧ (token.attrs h skAttrObjectType).isSome = true ∧
      (token.attrs h skAttrKeyType).isSome = true
    then buildAll token fault h (keyClasses token h) list else (.generalError, list) := by
  unfold readObject keyClasses
  rw [skAttributesFilled]
  simp only [List.forall_mem_cons, List.not_mem_nil, false_implies, implies_true, and_true]
  by_cases both : fault .objectType = false ∧ (token.attrs h skAttrObjectType).isSome = true ∧
      (token.attrs h skAttrKeyType).isSome = true
  · rw [if_pos both, if_pos both]
    obtain ⟨clear, type, key⟩ := both
    obtain ⟨objType, isType⟩ := Option.isSome_iff_exists.mp type
    obtain ⟨keyType, isKey⟩ := Option.isSome_iff_exists.mp key
    rw [isType, isKey]
    simp only [List.map_cons, List.map_nil, isType, isKey, Option.getD_some]
    by_cases rsa : uint32Of keyType = skkRsa
    · by_cases pair : uint32Of objType = skKeyPair
      · cases first : rsaPubKey token fault h with
        | error rc => simp only [rsa, pair, ne_eq, not_true_eq_false, if_true, if_false, buildAll, rsaKey, first]
        | ok o =>
          cases second : rsaPrivKey token fault h <;>
            simp only [rsa, pair, ne_eq, not_true_eq_false, if_true, if_false, buildAll, rsaKey, first, second]
      · by_cases pub : uint32Of objType = skPublicKey
        · rw [if_neg pair, if_pos pub, if_pos rsa, if_neg (not_not.mpr rsa), if_neg pair, if_pos pub]
          cases first : rsaPubKey token fault h <;> simp only [buildAll, rsaKey, first]
        · simp [rsa, pair, pub, buildAll]
    · by_cases pair : uint32Of objType = skKeyPair
      · simp [rsa, pair, buildAll]
      · simp [rsa, pair, buildAll]
  · rw [if_neg both, if_neg both]

theorem buildAllRan {j h : Nat} {line : List Step} {next : List Object → Rv × List Object}
    (later : ∀ list, ∃ before after, Ran token object line list (next list) before after) (classes : List ObjectClass) :
    ∀ list, ∃ before after, Ran token object (classes.map (.build j h) ++ line) list
      (match buildAll token (object j) h classes list with
        | (.ok, list) => next list
        | failed => failed) before after := by
  induction classes with
  | nil => exact later
  | cons c rest ih =>
    intro list
    rw [buildAll]
    rcases @rsaKeyRan token (object j) h c with ⟨read, ran⟩ | ⟨no, rc, wrong, ran⟩
    · rw [ran]
      obtain ⟨before, after, go⟩ := ih (takenOf token h c :: list)
      exact ⟨_, _, Ran.cons (show Succeeds token object (.build j h c) from read) go⟩
    · rw [ran]
      refine ⟨[], Step.build j h c :: (rest.map (.build j h) ++ line), ?_⟩
      have stops := @Ran.stop token object list (.build j h c) (rest.map (.build j h) ++ line) rc no wrong
      cases rc <;> first | exact stops | exact (wrong rfl).elim

theorem readObjectsRan (hs : List Nat) : ∀ j list, ∃ before after,
    Ran token object (stepsFrom token j hs) list (readObjects token object j hs list) before after := by
  induction hs with
  | nil => exact fun j list => ⟨[], [], Ran.nil⟩
  | cons h rest later =>
    intro j list
    rw [readObjects, readObjectSteps, stepsFrom]
    by_cases all : object j .objectType = false ∧ (token.attrs h skAttrObjectType).isSome = true ∧
        (token.attrs h skAttrKeyType).isSome = true
    · rw [if_pos all]
      obtain ⟨before, after, ran⟩ := @buildAllRan token object j h _ _ (later (j + 1)) (keyClasses token h) list
      exact ⟨_, _, Ran.cons (show Succeeds token object (.query j h) from all) ran⟩
    · rw [if_neg all]
      exact ⟨[], _, Ran.stop (show ¬ Succeeds token object (.query j h) from all) (by simp)⟩

theorem splitOnce {good : Step → Prop} {b₁ : List Step} :
    ∀ {b₂ a₁ a₂ : List Step}, b₁ ++ a₁ = b₂ ++ a₂ → (∀ s ∈ b₁, good s) → (∀ s ∈ b₂, good s) →
      (∀ s ∈ a₁.head?, ¬ good s) → (∀ s ∈ a₂.head?, ¬ good s) → b₁ = b₂ ∧ a₁ = a₂ := by
  induction b₁ with
  | nil =>
    intro b₂ a₁ a₂ same _ good₂ bad₁ _
    cases b₂ with
    | nil => exact ⟨rfl, same⟩
    | cons s rest =>
      rw [List.nil_append] at same
      rw [same] at bad₁
      exact (bad₁ s rfl (good₂ s List.mem_cons_self)).elim
  | cons s rest later =>
    intro b₂ a₁ a₂ same good₁ good₂ bad₁ bad₂
    cases b₂ with
    | nil =>
      rw [List.nil_append] at same
      rw [← same] at bad₂
      exact (bad₂ s rfl (good₁ s List.mem_cons_self)).elim
    | cons t others =>
      rw [List.cons_append, List.cons_append, List.cons.injEq] at same
      obtain ⟨rfl, same⟩ := same
      rw [List.forall_mem_cons] at good₁ good₂
      obtain ⟨rfl, rfl⟩ := later same good₁.2 good₂.2 bad₁ bad₂
      exact ⟨rfl, rfl⟩

end Runs

section Weights

def weight (o : Object) : Nat := 1 + o.templateList.length

def total (l : List Object) : Nat := (l.map weight).sum

theorem totalAppend (l m : List Object) : total (l ++ m) = total l + total m := by
  simp [total]

theorem totalPerm {l m : List Object} (perm : l.Perm m) : total l = total m :=
  (perm.map weight).sum_nat

theorem totalReverse (l : List Object) : total l.reverse = total l :=
  totalPerm l.reverse_perm

theorem wantedFrom (hs : List Nat) : ∀ j, (stepsFrom token j hs).flatMap (wanted token) =
    hs.flatMap fun h => (keyClasses token h).map (objectOf token h) := by
  induction hs with
  | nil => exact fun _ => rfl
  | cons h rest later =>
    intro j
    have own : ((keyClasses token h).map (Step.build j h)).flatMap (wanted token) =
        (keyClasses token h).map (objectOf token h) := by
      rw [List.flatMap_map]
      exact List.map_eq_flatMap.symm
    rw [stepsFrom, List.cons_append, List.flatMap_cons, List.flatMap_append, own, later, List.flatMap_cons]
    rfl

theorem filteredLength {α β : Type} (p : α → Bool) (f : α → Option β) (l : List α) :
    ((l.filter p).filterMap f).length ≤ (l.filterMap f).length ∧
      (((l.filter p).filterMap f).length = (l.filterMap f).length → ∀ x ∈ l, (f x).isSome = true → p x = true) := by
  induction l with
  | nil => exact ⟨le_refl _, by simp⟩
  | cons x rest later =>
    obtain ⟨bound, all⟩ := later
    rw [List.filter_cons, List.forall_mem_cons]
    cases is : f x with
    | none =>
      rw [List.filterMap_cons_none is]
      split
      · rw [List.filterMap_cons_none is]
        exact ⟨bound, fun same => ⟨by simp, all same⟩⟩
      · exact ⟨bound, fun same => ⟨by simp, all same⟩⟩
    | some y =>
      rw [List.filterMap_cons_some is, List.length_cons]
      split
      · next keeps =>
        rw [List.filterMap_cons_some is, List.length_cons]
        exact ⟨by omega, fun same => ⟨fun _ => keeps, all (by omega)⟩⟩
      · exact ⟨by omega, fun same => by omega⟩

theorem takenWeight (h : Nat) (c : ObjectClass) : weight (takenOf token h c) ≤ weight (objectOf token h c) ∧
    (weight (takenOf token h c) = weight (objectOf token h c) → ∀ type ∈ skTypes c, ¬ Longest token h type) := by
  have lengths := filteredLength (fun type => decide (¬ Longest token h type)) (pkcsAttribute token h) (skTypes c)
  simp only [weight, takenOf, objectOf, List.length_reverse, List.length_append]
  refine ⟨by omega, fun same type member long => ?_⟩
  obtain ⟨value, has, _⟩ := id long
  obtain ⟨a, gives, _, _⟩ := mapped (skTypesPub member) value
  have kept := lengths.2 (by omega) type member (by rw [pkcsAttribute, has, Option.bind_some, gives]; rfl)
  exact of_decide_eq_true kept long

theorem takenPlain {s : Step} (plain : Plain token s) : taken token s = wanted token s := by
  cases s with
  | query j h => rfl
  | build j h c =>
    have all : (skTypes c).filter (fun type => decide (¬ Longest token h type)) = skTypes c :=
      List.filter_eq_self.mpr fun type member => decide_eq_true (plain type member)
    rw [taken, wanted, takenOf, objectOf, all]

theorem takenTotal (line : List Step) :
    total (line.flatMap (taken token)) ≤ total (line.flatMap (wanted token)) ∧
      (total (line.flatMap (taken token)) = total (line.flatMap (wanted token)) →
        ∀ s ∈ line, Plain token s) := by
  induction line with
  | nil => exact ⟨le_refl _, by simp⟩
  | cons s rest later =>
    obtain ⟨bound, all⟩ := later
    rw [List.flatMap_cons, List.flatMap_cons, totalAppend, totalAppend, List.forall_mem_cons]
    cases s with
    | query j h => exact ⟨Nat.add_le_add_left bound _, fun same => ⟨trivial, all (Nat.add_left_cancel same)⟩⟩
    | build j h c =>
      obtain ⟨lighter, plain⟩ := @takenWeight token h c
      simp only [taken, wanted, total, List.map_cons, List.map_nil, List.sum_cons, List.sum_nil] at *
      exact ⟨by omega, fun same => ⟨plain (by omega), all (by omega)⟩⟩

theorem nothingWanted {line : List Step} (none : total (line.flatMap (wanted token)) = 0) :
    ∀ s ∈ line, ¬ s.Builds := by
  induction line with
  | nil => simp
  | cons s rest later =>
    rw [List.flatMap_cons, totalAppend] at none
    refine List.forall_mem_cons.mpr ⟨fun builds => ?_, later (by omega)⟩
    cases s with
    | query j h => exact builds
    | build j h c => simp [wanted, total, weight] at none

theorem buildsNothing {line : List Step} (f : Step → List Object) (query : ∀ j h, f (.query j h) = [])
    (idle : ∀ s ∈ line, ¬ s.Builds) : line.flatMap f = [] := by
  rw [List.flatMap_eq_nil_iff]
  intro s member
  cases s with
  | query j h => exact query j h
  | build j h c => exact (idle _ member trivial).elim

end Weights

section Loading

variable {result : Rv × List Object} {before after : List Step}

theorem Ran.headFails (ran : Ran token object (steps token) list result before after) :
    ∀ s ∈ after.head?, ¬ Succeeds token object s := by
  rcases ran.ended with ⟨_, rfl⟩ | ⟨_, failing, rest, rfl, fails⟩
  · simp
  · simpa using fails

theorem completeIff (ran : Ran token p.object (steps token) list result before after) :
    (before.flatMap (taken token)).reverse.Perm (keyObjects token) ↔ BuildsAll token p := by
  have all : keyObjects token = before.flatMap (wanted token) ++ after.flatMap (wanted token) := by
    rw [← List.flatMap_append, ← ran.line]
    exact (wantedFrom token.enumerated 0).symm
  constructor
  · intro perm
    have same := totalPerm perm
    have bound := @takenTotal token before
    rw [totalReverse, all, totalAppend] at same
    exact ⟨before, after, ran.line, fun s member => ⟨ran.passed s member, bound.2 (by omega) s member⟩,
      @nothingWanted token after (by omega)⟩
  · rintro ⟨b, a, line, good, idle⟩
    rw [ran.line] at line
    obtain ⟨m, first, last⟩ : ∃ m, before = b ++ m ∧ a = m ++ after := by
      rcases List.append_eq_append_iff.mp line with ⟨m, longer, rest⟩ | ⟨m, shorter, rest⟩
      · cases m with
        | nil => exact ⟨[], by simpa using longer.symm, by simpa using rest.symm⟩
        | cons s others =>
          have fails := ran.headFails s (by rw [rest]; rfl)
          exact (fails (good s (by rw [longer]; simp)).1).elim
      · exact ⟨m, shorter, rest⟩
    rw [last, List.forall_mem_append] at idle
    have own : b.flatMap (taken token) = b.flatMap (wanted token) :=
      List.flatMap_congr fun s member => takenPlain (good s member).2
    rw [all, first, List.flatMap_append, List.flatMap_append, own,
      buildsNothing (taken token) (fun _ _ => rfl) idle.1, buildsNothing (wanted token) (fun _ _ => rfl) idle.1,
      buildsNothing (wanted token) (fun _ _ => rfl) idle.2, List.append_nil, List.append_nil]
    exact List.reverse_perm _

theorem emptyIff : (before.flatMap (taken token)).reverse = [] ↔ ∀ s ∈ before, ¬ s.Builds := by
  rw [List.reverse_eq_nil_iff]
  constructor
  · intro none s member builds
    have own := List.flatMap_eq_nil_iff.mp none s member
    cases s with
    | query j h => exact builds
    | build j h c => cases own
  · exact buildsNothing (taken token) fun _ _ => rfl

theorem failsIff (ran : Ran token object (steps token) list result before after) :
    (result.1 ≠ .ok ∧ (before.flatMap (taken token)).reverse = []) ↔
      ∃ before failing after, steps token = before ++ failing :: after ∧
        (∀ s ∈ before, Succeeds token object s ∧ ¬ s.Builds) ∧ ¬ Succeeds token object failing := by
  rw [emptyIff]
  constructor
  · rintro ⟨wrong, idle⟩
    rcases ran.ended with ⟨fine, _⟩ | ⟨_, failing, rest, rfl, fails⟩
    · exact (wrong fine).elim
    · exact ⟨before, failing, rest, ran.line, fun s member => ⟨ran.passed s member, idle s member⟩, fails⟩
  · rintro ⟨b, failing, rest, line, good, fails⟩
    obtain ⟨rfl, rfl⟩ := splitOnce (ran.line.symm.trans line) ran.passed (fun s member => (good s member).1)
      ran.headFails (by simpa using fails)
    refine ⟨?_, fun s member => (good s member).2⟩
    rcases ran.ended with ⟨_, none⟩ | ⟨wrong, _⟩
    · cases none
    · exact wrong

theorem loadedIff (p : Pattern) (list : List Object) :
    CompleteOrAsBefore token p list (getAllTokenObjects token p teeSlotId list) ↔ LoadsWhole token p := by
  unfold getAllTokenObjects LoadsWhole
  rw [if_neg (by simp)]
  by_cases enumerate : p.enumerate = true
  · rw [if_pos enumerate]
    refine iff_of_true ⟨[], rfl, .inl ⟨by simp, rfl⟩, fun clear => ?_⟩ (.inl enumerate)
    rw [clear.1] at enumerate
    cases enumerate
  rw [if_neg enumerate]
  simp only [enumerate, Bool.false_eq_true, false_or]
  obtain ⟨before, after, ran⟩ := @readObjectsRan token p.object token.enumerated 0 list
  have ran : Ran token p.object (steps token) list _ before after := ran
  constructor
  · rintro ⟨added, left, either, hidden⟩
    rw [ran.list, List.append_left_inj] at left
    subst left
    rcases either with fails | complete
    · refine .inl ⟨(failsIff ran).mp fails, fun clear h member whole => ?_⟩
      rw [fails.2] at hidden
      exact List.eq_nil_iff_forall_not_mem.mpr fun c isClass => by
        simpa using hidden clear h member whole c isClass
    · exact .inr ((completeIff ran).mp complete)
  · rintro (⟨fails, hidden⟩ | complete)
    · refine ⟨_, ran.list, .inl ((failsIff ran).mpr fails), fun clear h member whole c isClass => ?_⟩
      rw [hidden clear h member whole] at isClass
      cases isClass
    · have perm := (completeIff ran).mpr complete
      refine ⟨_, ran.list, .inr perm, fun _ h member _ c isClass => perm.mem_iff.mpr ?_⟩
      exact List.mem_flatMap.mpr ⟨h, member, List.mem_map_of_mem isClass⟩

end Loading

section Searches

def searches (token : Token) : List Pattern → List Object → List (Rv × List Object)
  | [], _ => []
  | p :: rest, list => loadWhenEmpty token p list :: searches token rest (loadWhenEmpty token p list).2

theorem loadKept (whole : LoadsWhole token p) (loaded : list = [] ∨ list.Perm (keyObjects token)) :
    ((loadWhenEmpty token p list).1 = .ok → (loadWhenEmpty token p list).2.Perm (keyObjects token)) ∧
      ((loadWhenEmpty token p list).2 = [] ∨ (loadWhenEmpty token p list).2.Perm (keyObjects token)) := by
  unfold loadWhenEmpty
  split
  · next empty =>
    obtain ⟨added, left, either, _⟩ := (loadedIff p list).mpr whole
    subst empty
    rw [left, List.append_nil]
    rcases either with ⟨wrong, none⟩ | complete
    · exact ⟨fun fine => (wrong fine).elim, .inl none⟩
    · exact ⟨fun _ => complete, .inr complete⟩
  · next filled => exact ⟨fun _ => loaded.resolve_left filled, loaded⟩

theorem searchesComplete (ps : List Pattern) : ∀ list : List Object,
    (∀ p ∈ ps, LoadsWhole token p) → (list = [] ∨ list.Perm (keyObjects token)) →
      ∀ r ∈ searches token ps list, r.1 = .ok → r.2.Perm (keyObjects token) := by
  induction ps with
  | nil => exact fun _ _ _ r member => by cases member
  | cons p rest later =>
    intro list whole loaded r member
    rw [List.forall_mem_cons] at whole
    obtain ⟨complete, next⟩ := loadKept whole.1 loaded
    rcases List.mem_cons.mp member with rfl | inside
    · exact complete
    · exact later _ whole.2 next r inside

end Searches

section Example

def exampleAttrs : List (BitVec 32 × List Byte) :=
  [(skAttrObjectType, [0, 0, 2, 0]), (skAttrKeyType, [0, 0, 0, 0]), (skAttrObjectLabel, [0x6B]),
    (skAttrObjectIndex, [7]), (skAttrModulus, [0xC5, 0x01]), (skAttrPublicExponent, [3]),
    (skAttrModulusBits, [16, 0, 0, 0])]

theorem exampleHas {h : Nat} {type : BitVec 32} {value : List Byte}
    (has : (if h < 2 then (exampleAttrs.find? (·.1 == type)).map Prod.snd else none) = some value) :
    (type, value) ∈ exampleAttrs := by
  split at has
  · obtain ⟨⟨t, v⟩, found, rfl⟩ := Option.map_eq_some_iff.mp has
    have same := List.find?_some found
    have equal : t = type := by simpa using same
    exact equal ▸ List.mem_of_find?_eq_some found
  · cases has

def exampleToken : Token where
  enumerated := [0, 1]
  few := by decide
  attrs h type := if h < 2 then (exampleAttrs.find? (·.1 == type)).map Prod.snd else none
  short h type value has := by
    have all : ∀ x ∈ exampleAttrs, x.2.length < 65536 := by decide
    exact all _ (exampleHas has)
  words h type value member has := by
    have all : ∀ x ∈ exampleAttrs, x.1 ∈ [skAttrObjectType, skAttrKeyType, skAttrModulusBits] →
        x.2.length = 4 := by decide
    exact all _ (exampleHas has) member

def clearPattern : Pattern := ⟨false, fun _ _ => false⟩

theorem exampleLoads : LoadsWhole exampleToken clearPattern := by
  have types : ∀ h < 2, ∀ type ∈ rsaPubAttrType,
      ∃ value, exampleToken.attrs h type = some value ∧ value.length ≠ 65535 := by
    intro h small type member
    unfold rsaPubAttrType at member
    simp only [List.mem_cons, List.not_mem_nil, or_false] at member
    have found : exampleToken.attrs h type = (exampleAttrs.find? (·.1 == type)).map Prod.snd := if_pos small
    rw [found]
    rcases member with rfl | rfl | rfl | rfl | rfl <;> exact ⟨_, rfl, by decide⟩
  have plain : ∀ h < 2, ∀ type ∈ rsaPubAttrType, ¬ Longest exampleToken h type := by
    rintro h small type member ⟨value, has, long⟩
    obtain ⟨own, is, other⟩ := types h small type member
    rw [is] at has
    cases has
    exact other long
  have read : ∀ h < 2, Readable exampleToken (fun _ => false) h .publicKey := fun h small =>
    ⟨rfl, rfl, fun type member => by
        obtain ⟨_, is, _⟩ := types h small type member
        rw [is]
        rfl,
      fun _ _ => .inr fun _ _ => rfl, fun _ _ => rfl⟩
  have line : steps exampleToken = [.query 0 0, .build 0 0 .publicKey, .query 1 1, .build 1 1 .publicKey] := rfl
  refine .inr (.inr ⟨steps exampleToken, [], by simp, ?_, by simp⟩)
  rw [line]
  simp only [List.forall_mem_cons, List.not_mem_nil, false_implies, implies_true, and_true]
  exact ⟨⟨⟨rfl, rfl, rfl⟩, trivial⟩, ⟨read 0 (by decide), plain 0 (by decide)⟩, ⟨⟨rfl, rfl, rfl⟩, trivial⟩,
    ⟨read 1 (by decide), plain 1 (by decide)⟩⟩

end Example

theorem tokenObjectsLoaded (token : Token) :
    (∀ p list, CompleteOrAsBefore token p list (getAllTokenObjects token p teeSlotId list) ↔ LoadsWhole token p) ∧
    (∀ ps, (∀ p ∈ ps, LoadsWhole token p) →
      ∀ r ∈ searches token ps [], r.1 = .ok → r.2.Perm (keyObjects token)) :=
  ⟨loadedIff, fun ps whole => searchesComplete ps [] whole (.inl rfl)⟩

theorem tokenObjectsLoadedTwice : ∀ r ∈ searches exampleToken [⟨true, fun _ _ => false⟩, clearPattern] [],
    r.1 = .ok → r.2.Perm (keyObjects exampleToken) :=
  (tokenObjectsLoaded exampleToken).2 [⟨true, fun _ _ => false⟩, clearPattern] (by
    simp only [List.forall_mem_cons, List.not_mem_nil, false_implies, implies_true, and_true]
    exact ⟨.inl rfl, exampleLoads⟩)

theorem partialList : ¬ CompleteOrAsBefore exampleToken ⟨false, fun j s => j == 1 && s == .node .publicKey⟩ []
    (getAllTokenObjects exampleToken ⟨false, fun j s => j == 1 && s == .node .publicKey⟩ teeSlotId []) := by
  rintro ⟨added, left, either, _⟩
  rw [List.append_nil] at left
  have one : (getAllTokenObjects exampleToken ⟨false, fun j s => j == 1 && s == .node .publicKey⟩
      teeSlotId []).2.length = 1 := by decide
  have two : (keyObjects exampleToken).length = 2 := by decide
  rw [left] at one
  rcases either with ⟨_, rfl⟩ | complete
  · cases one
  · rw [complete.length_eq, two] at one
    cases one

end Flexbuild.TokenObjects
