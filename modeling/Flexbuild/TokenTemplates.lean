import Flexbuild.TokenObjects

/-! When an object of the token can be read, and what becomes of it. A template is the sequence of
the attributes that were added to it, latest first, as no type occurs twice. -/
namespace Flexbuild.TokenObjects
open ByteMemory (Byte)
open ObjectSearch (Rv Attribute)
open SecureObjects (skAttrObjectType skAttrObjectIndex skAttrObjectLabel skAttrKeyType skAttrModulusBits
  skAttrModulus skAttrPublicExponent skKeyPair skPublicKey skkRsa)

def skTypes : ObjectClass → List (BitVec 32)
  | .publicKey => rsaPubAttrType
  | .privateKey => rsaPrivAttrType

def groupDefaults : ObjectClass → DefaultGroup → List Attribute
  | _, .common => commonDefaults
  | _, .key => keyDefaults
  | .publicKey, .keyClass => pubkDefaults
  | .privateKey, .keyClass => privkDefaults
  | .publicKey, .rsa => rsaDefaults []
  | .privateKey, .rsa => rsaDefaults rsaPrivKeyMechs

def groups : List DefaultGroup := [.common, .key, .keyClass, .rsa]

def defaults (c : ObjectClass) : List Attribute := groups.flatMap (groupDefaults c)

def pkcsAttribute (token : Token) (h : Nat) (type : BitVec 32) : Option Attribute :=
  (token.attrs h type).bind (mapSkToPkcsAttr false type)

def objectOf (token : Token) (h : Nat) (c : ObjectClass) : Object :=
  ⟨h, c, ((skTypes c).filterMap (pkcsAttribute token h) ++ defaults c).reverse⟩

def Longest (token : Token) (h : Nat) (type : BitVec 32) : Prop :=
  ∃ value, token.attrs h type = some value ∧ value.length = 65535

instance (token : Token) (h : Nat) (type : BitVec 32) : Decidable (Longest token h type) :=
  match found : token.attrs h type with
  | none => isFalse (by rintro ⟨value, same, _⟩; rw [found] at same; cases same)
  | some value => decidable_of_iff (value.length = 65535)
      ⟨fun long => ⟨value, found, long⟩, by rintro ⟨v, same, long⟩; rw [found] at same; cases same; exact long⟩

def takenOf (token : Token) (h : Nat) (c : ObjectClass) : Object :=
  ⟨h, c, (((skTypes c).filter (¬ Longest token h ·)).filterMap (pkcsAttribute token h) ++ defaults c).reverse⟩

def attrSites (c : ObjectClass) (type : BitVec 32) : List Site :=
  [.skAttr c type, .value c type, .mapped c type, .attr c type, .attrNode c type]

def defaultSites (c : ObjectClass) : List Site :=
  groups.flatMap fun group => (List.range (2 * (groupDefaults c group).length)).map (.defaultAttr c group)

structure Readable (token : Token) (fault : Faults) (h : Nat) (c : ObjectClass) : Prop where
  node : fault (.node c) = false
  lengths : fault (.lengths c) = false
  found : ∀ type ∈ skTypes c, (token.attrs h type).isSome = true
  attrs : ∀ type ∈ skTypes c, Longest token h type ∨ ∀ s ∈ attrSites c type, fault s = false
  defaults : ∀ s ∈ defaultSites c, fault s = false

variable {token : Token} {fault : Faults} {h : Nat} {c : ObjectClass} {list : List Attribute}

theorem addedAll {as : List Attribute} :
    ∀ {list : List Attribute}, (list.map Attribute.type ++ as.map Attribute.type).Nodup →
      as.foldl templateUpdateAttr list = as.reverse ++ list := by
  induction as with
  | nil => intro list _; rfl
  | cons a rest later =>
    intro list distinct
    have absent : list.eraseP (fun b => b.type == a.type) = list := by
      apply List.eraseP_of_forall_not
      intro b member same
      have equal : b.type = a.type := by simpa using same
      rw [List.nodup_append] at distinct
      exact distinct.2.2 b.type (List.mem_map_of_mem member) a.type (by simp) equal
    rw [List.foldl_cons, templateUpdateAttr, absent]
    have next : ((a :: list).map Attribute.type ++ rest.map Attribute.type).Nodup := by
      rw [List.map_cons, List.cons_append]
      rw [List.map_cons] at distinct
      exact List.perm_middle.nodup_iff.mp distinct
    rw [later next]
    simp

section Defaults

def GroupClear (fault : Faults) (c : ObjectClass) (group : DefaultGroup) : Prop :=
  ∀ i < 2 * (groupDefaults c group).length, fault (.defaultAttr c group i) = false

instance (fault : Faults) (c : ObjectClass) (group : DefaultGroup) : Decidable (GroupClear fault c group) :=
  inferInstanceAs (Decidable (∀ i < _, _))

def setGroup (fault : Faults) (c : ObjectClass) (group : DefaultGroup) (list : List Attribute) :
    Except Rv (List Attribute) :=
  setDefaultAttrs (fun i => fault (.defaultAttr c group i)) (groupDefaults c group) list

theorem setGroupRan (group : DefaultGroup) (list : List Attribute) : setGroup fault c group list =
    if GroupClear fault c group then .ok ((groupDefaults c group).foldl templateUpdateAttr list)
    else .error .hostMemory := by
  unfold setGroup setDefaultAttrs
  by_cases clear : GroupClear fault c group
  · rw [if_pos clear, if_neg (by simpa [GroupClear] using clear)]
  · rw [if_neg clear, if_pos (by simpa [GroupClear] using clear)]

theorem templateAddDefaultGroups : templateAddDefaultAttr fault c list = (do
    let list ← setGroup fault c .common list
    let list ← setGroup fault c .key list
    let list ← setGroup fault c .keyClass list
    setGroup fault c .rsa list) := by
  cases c <;>
    simp only [templateAddDefaultAttr, templateAddDefaultCommonAttr, rsaPubkAddDefaultAttr, pubkAddDefaultAttr,
      rsaPrivkAddDefaultAttr, privkAddDefaultAttr, keyObjectSetDefaultAttr, setGroup, groupDefaults, bind_assoc]

theorem defaultSitesClear : (∀ s ∈ defaultSites c, fault s = false) ↔
    ∀ group ∈ groups, GroupClear fault c group := by
  unfold defaultSites
  simp only [List.mem_flatMap, List.mem_map, List.mem_range]
  constructor
  · intro clear group member i inside
    exact clear _ ⟨group, member, i, inside, rfl⟩
  · rintro clear s ⟨group, member, i, inside, rfl⟩
    exact clear group member i inside

theorem defaultsRan (c : ObjectClass) (list : List Attribute) :
    ((∀ s ∈ defaultSites c, fault s = false) ∧
      templateAddDefaultAttr fault c list = .ok ((defaults c).foldl templateUpdateAttr list)) ∨
    (¬ (∀ s ∈ defaultSites c, fault s = false) ∧ templateAddDefaultAttr fault c list = .error .hostMemory) := by
  rw [defaultSitesClear, templateAddDefaultGroups]
  simp only [groups, List.forall_mem_cons, setGroupRan, defaults, List.flatMap_cons, List.flatMap_nil,
    List.foldl_append, List.foldl_nil]
  by_cases common : GroupClear fault c .common
  · by_cases key : GroupClear fault c .key
    · by_cases keyClass : GroupClear fault c .keyClass
      · by_cases rsa : GroupClear fault c .rsa <;>
          simp [common, key, keyClass, rsa, bind, Except.bind]
      · simp [common, key, keyClass, bind, Except.bind]
    · simp [common, key, bind, Except.bind]
  · simp [common, bind, Except.bind]

end Defaults

section Attributes

def ckaOf (type : BitVec 32) : BitVec 64 :=
  if type = skAttrObjectLabel then ckaLabel
  else if type = skAttrObjectIndex then ckaId
  else if type = skAttrModulusBits then ckaModulusBits
  else if type = skAttrModulus then ckaModulus
  else ckaPublicExponent

variable {type : BitVec 32}

theorem skTypesPub (member : type ∈ skTypes c) : type ∈ rsaPubAttrType := by
  cases c with
  | publicKey => exact member
  | privateKey =>
    have sub : rsaPrivAttrType ⊆ rsaPubAttrType := by decide
    exact sub member

theorem definedAll : ∀ type ∈ rsaPubAttrType, isAttributeDefined (ckaOf type) = true := by
  have types : rsaPubAttrType.map ckaOf = [ckaLabel, ckaId, ckaModulus, ckaPublicExponent, ckaModulusBits] := by
    decide
  have all : [ckaLabel, ckaId, ckaModulus, ckaPublicExponent, ckaModulusBits].all isAttributeDefined = true := by
    decide
  intro type member
  rw [← types] at all
  exact List.all_eq_true.mp all _ (List.mem_map_of_mem member)

theorem mapped (member : type ∈ rsaPubAttrType) (value : List Byte) :
    ∃ a, mapSkToPkcsAttr false type value = some a ∧ mapSkToPkcsAttr true type value = none ∧
      a.type = ckaOf type := by
  unfold rsaPubAttrType at member
  simp only [List.mem_cons, List.not_mem_nil, or_false] at member
  rcases member with rfl | rfl | rfl | rfl | rfl <;> exact ⟨_, rfl, rfl, rfl⟩

theorem pkcsAttributeType {a : Attribute} (member : type ∈ rsaPubAttrType)
    (is : pkcsAttribute token h type = some a) : a.type = ckaOf type := by
  unfold pkcsAttribute at is
  obtain ⟨value, _, same⟩ := Option.bind_eq_some_iff.mp is
  obtain ⟨b, gives, _, named⟩ := mapped member value
  rw [gives] at same
  cases same
  exact named

theorem skAttributesFilled {fails : Bool} {types : List (BitVec 32)} :
    skGetObjectAttribute token fails h types =
      if fails = false ∧ ∀ type ∈ types, (token.attrs h type).isSome = true
      then some (types.map fun type => (type, (token.attrs h type).getD [])) else none := by
  unfold skGetObjectAttribute
  cases fails with
  | true => simp
  | false =>
    induction types with
    | nil => simp
    | cons type rest later =>
      simp only [Bool.false_eq_true, if_false, true_and, List.mapM_cons, List.forall_mem_cons] at later ⊢
      rw [later]
      cases has : token.attrs h type with
      | none => simp
      | some value =>
        by_cases all : ∀ type ∈ rest, (token.attrs h type).isSome = true
        · simp [if_pos all, has]
        · simp [if_neg all]

def AttrsRead (token : Token) (fault : Faults) (h : Nat) (c : ObjectClass) (types : List (BitVec 32)) : Prop :=
  ∀ type ∈ types, Longest token h type ∨ ∀ s ∈ attrSites c type, fault s = false

theorem longLength {value : List Byte} (short : value.length < 65536) :
    (BitVec.ofNat 16 value.length).toInt = -1 ↔ value.length = 65535 := by
  rw [BitVec.toInt_eq_toNat_cond, BitVec.toNat_ofNat, Nat.mod_eq_of_lt short]
  omega

-- The induction is on the types that are left; each is left out, added or ends the call.
theorem addAttributesRan {types : List (BitVec 32)} (known : ∀ type ∈ types, type ∈ rsaPubAttrType)
    (found : ∀ type ∈ types, (token.attrs h type).isSome = true) :
    ∀ list, (AttrsRead token fault h c types ∧
      addAttributes token fault c h (types.map fun type => (type, (token.attrs h type).getD [])) list =
        .ok (((types.filter (¬ Longest token h ·)).filterMap (pkcsAttribute token h)).foldl
          templateUpdateAttr list)) ∨
      (¬ AttrsRead token fault h c types ∧ ∃ rc, rc ≠ .ok ∧
        addAttributes token fault c h (types.map fun type => (type, (token.attrs h type).getD [])) list =
          .error rc) := by
  induction types with
  | nil => exact fun list => .inl ⟨by simp [AttrsRead], rfl⟩
  | cons type rest later =>
    intro list
    rw [List.forall_mem_cons] at known found
    have next := later known.2 found.2
    obtain ⟨value, has⟩ := Option.isSome_iff_exists.mp found.1
    obtain ⟨a, gives, fails, named⟩ := mapped known.1 value
    have isDefined : isAttributeDefined a.type = true := by
      rw [named]
      exact definedAll type known.1
    have pkcs : pkcsAttribute token h type = some a := by rw [pkcsAttribute, has]; exact gives
    have split : AttrsRead token fault h c (type :: rest) ↔
        (Longest token h type ∨ ∀ s ∈ attrSites c type, fault s = false) ∧ AttrsRead token fault h c rest :=
      List.forall_mem_cons
    rw [split, List.map_cons, addAttributes, has, Option.getD_some]
    simp only [longLength (token.short h type value has)]
    by_cases long : value.length = 65535
    · have longest : Longest token h type := ⟨value, has, long⟩
      rw [if_pos long]
      simpa [longest] using next list
    · have notLongest : ¬ Longest token h type := by
        rintro ⟨v, same, is⟩
        rw [has] at same
        cases same
        exact long is
      rw [if_neg long, List.filter_cons_of_pos (by simpa using notLongest),
        List.filterMap_cons_some pkcs, List.foldl_cons]
      simp only [notLongest, false_or]
      by_cases sites : ∀ s ∈ attrSites c type, fault s = false
      · simp only [attrSites, List.forall_mem_cons] at sites
        obtain ⟨skAttr, valueRead, mapOk, attr, node, -⟩ := sites
        rw [skAttr, valueRead, mapOk, attr, node, skAttributesFilled]
        simp only [Bool.false_eq_true, if_false, List.forall_mem_cons, has, Option.isSome_some,
          List.not_mem_nil, false_implies, implies_true, and_true, if_true, List.map_cons, List.map_nil,
          Option.getD_some, gives, templateAddAttr, isDefined, Bool.true_eq_false]
        rcases next (templateUpdateAttr list a) with ⟨all, ran⟩ | ⟨some, rc, wrong, ran⟩
        · exact .inl ⟨⟨by simp [attrSites, skAttr, valueRead, mapOk, attr, node], all⟩, ran⟩
        · exact .inr ⟨fun no => some no.2, rc, wrong, ran⟩
      · refine .inr ⟨fun no => sites no.1, ?_⟩
        simp only [attrSites, List.forall_mem_cons, List.not_mem_nil, false_implies, implies_true,
          and_true] at sites
        cases skAttr : fault (.skAttr c type) with
        | true => exact ⟨_, by simp, rfl⟩
        | false =>
        cases valueRead : fault (.value c type) with
        | true => exact ⟨.generalError, by simp, by simp [skGetObjectAttribute]⟩
        | false =>
        rw [skAttributesFilled]
        simp only [Bool.false_eq_true, if_false, List.forall_mem_cons, has, Option.isSome_some,
          List.not_mem_nil, false_implies, implies_true, and_true, if_true, List.map_cons, List.map_nil,
          Option.getD_some]
        cases mapOk : fault (.mapped c type) with
        | true => rw [fails]; exact ⟨_, by simp, rfl⟩
        | false =>
        rw [gives]
        simp only [templateAddAttr, isDefined, Bool.true_eq_false, if_false]
        cases attr : fault (.attr c type) with
        | true => exact ⟨.hostMemory, by simp, rfl⟩
        | false =>
        cases node : fault (.attrNode c type) with
        | true => exact ⟨.hostMemory, by simp, rfl⟩
        | false => simp [skAttr, valueRead, mapOk, attr, node] at sites

end Attributes

section Objects

def rsaKey (token : Token) (fault : Faults) (h : Nat) : ObjectClass → Except Rv Object
  | .publicKey => rsaPubKey token fault h
  | .privateKey => rsaPrivKey token fault h

theorem rsaKeySteps : rsaKey token fault h c = (do
    let list ← createRsaKeyObject token fault c h (skTypes c)
    let list ← templateAddDefaultAttr fault c list
    .ok ⟨h, c, list⟩) := by
  cases c <;> rfl

theorem templateTypes : ((skTypes c).map ckaOf ++ (defaults c).map Attribute.type).Nodup := by
  cases c <;> decide

theorem skAttributeTypes {types : List (BitVec 32)} (known : ∀ type ∈ types, type ∈ rsaPubAttrType) :
    ((types.filterMap (pkcsAttribute token h)).map Attribute.type).Sublist (types.map ckaOf) := by
  induction types with
  | nil => exact .slnil
  | cons type rest later =>
    rw [List.forall_mem_cons] at known
    cases is : pkcsAttribute token h type with
    | none =>
      rw [List.filterMap_cons_none is]
      exact (later known.2).cons _
    | some a =>
      rw [List.filterMap_cons_some is, List.map_cons, List.map_cons, pkcsAttributeType known.1 is]
      exact (later known.2).cons_cons _

theorem rsaKeyRan : (Readable token fault h c ∧ rsaKey token fault h c = .ok (takenOf token h c)) ∨
    (¬ Readable token fault h c ∧ ∃ rc, rc ≠ .ok ∧ rsaKey token fault h c = .error rc) := by
  rw [rsaKeySteps, createRsaKeyObject]
  by_cases node : fault (.node c) = true
  · rw [if_pos node]
    refine .inr ⟨fun read => ?_, .hostMemory, by simp, rfl⟩
    rw [read.node] at node
    cases node
  rw [if_neg node, objectAddTemplate, skAttributesFilled]
  by_cases lengths : fault (.lengths c) = false ∧ ∀ type ∈ skTypes c, (token.attrs h type).isSome = true
  · rw [if_pos lengths]
    dsimp only
    rcases addAttributesRan (fun type => skTypesPub) lengths.2 ([] : List Attribute) with ⟨read, ran⟩ | ⟨no, rc, wrong, ran⟩
    · rw [ran]
      simp only [bind, Except.bind]
      set own := ((skTypes c).filter (¬ Longest token h ·)).filterMap (pkcsAttribute token h)
      rcases @defaultsRan fault c (own.foldl templateUpdateAttr []) with ⟨clear, ran⟩ | ⟨no, ran⟩
      · refine .inl ⟨⟨by simpa using node, lengths.1, lengths.2, read, clear⟩, ?_⟩
        rw [ran, ← List.foldl_append]
        have distinct : (([] : List Attribute).map Attribute.type ++ (own ++ defaults c).map Attribute.type).Nodup := by
          rw [List.map_nil, List.nil_append, List.map_append]
          refine templateTypes.sublist (List.Sublist.append_right ?_ _)
          exact (skAttributeTypes fun type member => skTypesPub (List.mem_filter.mp member).1).trans
            (List.filter_sublist.map _)
        rw [addedAll distinct, List.append_nil]
        rfl
      · exact .inr ⟨fun all => no all.defaults, .hostMemory, by simp, by rw [ran]⟩
    · rw [ran]
      exact .inr ⟨fun all => no all.attrs, rc, wrong, rfl⟩
  · rw [if_neg lengths]
    exact .inr ⟨fun all => lengths ⟨all.lengths, all.found⟩, .generalError, by simp, rfl⟩

end Objects
end Flexbuild.TokenObjects
