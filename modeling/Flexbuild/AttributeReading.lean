import Flexbuild.Signing
import Mathlib.Data.List.Forall2

/-! Reading the attributes of a token object. Each entry of the caller's template is answered by itself, with a
length or with a copy into the buffer of the caller; the parts of a private key that is sensitive or must not leave
the token are kept back. -/
namespace Flexbuild.AttributeReading
open ByteMemory
open ObjectSearch (Attribute Object Library templateCheckAttr slotCount)
open TokenObjects (ckaClass ckaKeyType ckaSensitive ckaExtractable ckoPrivateKey ckkRsa ulongBytes bbool)
open Signing (ulongOf ckaCertificateType ckoSecretKey checkRsaPrivkExportability)

inductive Rv where
  | ok | cryptokiNotInitialized | argumentsBad | sessionHandleInvalid | objectHandleInvalid
  | attributeSensitive | attributeTypeInvalid | bufferTooSmall
  deriving DecidableEq

def privateParts : List (BitVec 64) := [0x123, 0x124, 0x125, 0x126, 0x127, 0x128]

structure TemplateEntry where
  type : BitVec 64
  pValue : Nat
  ulValueLen : BitVec 64
  deriving DecidableEq

section reading
variable (garbage : BitVec 64 × BitVec 64) (list : List Attribute)

def templateGetClass : BitVec 64 × BitVec 64 :=
  list.foldl (fun (objClass, subclass) a =>
    if a.type = ckaClass then (ulongOf a.value, subclass)
    else if a.type = ckaCertificateType ∨ a.type = ckaKeyType then (objClass, ulongOf a.value)
    else (objClass, subclass)) garbage

def checkAttrExportability (type : BitVec 64) : Bool :=
  let (cls, subclass) := templateGetClass garbage list
  if cls ≠ ckoPrivateKey ∧ cls ≠ ckoSecretKey then true
  else
    match templateCheckAttr ckaSensitive list, templateCheckAttr ckaExtractable list with
    | some sensitive, some extractable =>
      if sensitive.value.head? = some 0 ∧ extractable.value.head? = some 1 then true
      else if cls = ckoPrivateKey ∧ subclass = ckkRsa then checkRsaPrivkExportability type
      else true
    | _, _ => false

def readEntry (mem : Memory) (e : TemplateEntry) : Rv × TemplateEntry × Memory :=
  if checkAttrExportability garbage list e.type = false then (.attributeSensitive, { e with ulValueLen := -1 }, mem)
  else
    match templateCheckAttr e.type list with
    | none => (.attributeTypeInvalid, { e with ulValueLen := -1 }, mem)
    | some attr =>
      let length := BitVec.ofNat 64 attr.value.length
      if e.pValue = 0 then (.ok, { e with ulValueLen := length }, mem)
      else if length ≤ e.ulValueLen then (.ok, { e with ulValueLen := length }, store mem e.pValue attr.value)
      else (.bufferTooSmall, { e with ulValueLen := -1 }, mem)

theorem signingReads (mem : Memory) (e : TemplateEntry) :
    let answer := (Signing.readAttr list ⟨e.type, if e.pValue = 0 then none else some e.ulValueLen⟩).2
    (readEntry (0, 0) list mem e).2 = ({ e with ulValueLen := answer.ulValueLen }, store mem e.pValue answer.value) := by
  unfold Signing.readAttr readEntry
  rw [show checkAttrExportability (0, 0) list e.type = Signing.checkAttrExportability list e.type from rfl]
  cases Signing.checkAttrExportability list e.type with
  | false => simp
  | true =>
    cases templateCheckAttr e.type list with
    | none => simp
    | some a =>
      by_cases null : e.pValue = 0
      · simp [null]
      · by_cases room : BitVec.ofNat 64 a.value.length ≤ e.ulValueLen <;> simp [null, room]

-- The value returned is that of the last entry that failed.
def readEntries : List TemplateEntry → Rv → Memory → Rv × List TemplateEntry × Memory
  | [], ret, mem => (ret, [], mem)
  | e :: rest, ret, mem =>
    let (rv, e, mem) := readEntry garbage list mem e
    let (ret, rest, mem) := readEntries rest (if rv = .ok then ret else rv) mem
    (ret, e :: rest, mem)

end reading

structure Request where
  hSession : Nat
  hObject : Nat
  template : Option (List TemplateEntry)

def getAttributeValue (garbage : BitVec 64 × BitVec 64) (l : Library) (r : Request) (mem : Memory) :
    Rv × Option (List TemplateEntry) × Memory :=
  if ¬ l.initialized then (.cryptokiNotInitialized, r.template, mem)
  else
    match r.template with
    | none => (.argumentsBad, none, mem)
    | some [] => (.argumentsBad, some [], mem)
    | some template =>
      match l.sessions r.hSession with
      | none => (.sessionHandleInvalid, some template, mem)
      | some s =>
        if slotCount ≤ s.slotId then (.objectHandleInvalid, some template, mem)
        else
          match (l.objects s.slotId).objects.find? fun o => o.handle = r.hObject with
          | none => (.objectHandleInvalid, some template, mem)
          | some o =>
            let (rv, template, mem) := readEntries garbage o.templateList template .ok mem
            (rv, some template, mem)

def readAll (garbage : BitVec 64 × BitVec 64) (l : Library) :
    List Request → Memory → List (Rv × Option (List TemplateEntry)) × Memory
  | [], mem => ([], mem)
  | r :: rest, mem =>
    let (rv, template, mem) := getAttributeValue garbage l r mem
    let (answers, mem) := readAll garbage l rest mem
    ((rv, template) :: answers, mem)

section secrets

structure Guarded (list : List Attribute) : Prop where
  privateKey : ∀ garbage, templateGetClass garbage list = (ckoPrivateKey, ckkRsa)
  kept : ∀ sensitive ∈ templateCheckAttr ckaSensitive list, ∀ extractable ∈ templateCheckAttr ckaExtractable list,
    ¬ (sensitive.value.head? = some 0 ∧ extractable.value.head? = some 1)

def SameButSecret (a b : Attribute) : Prop := a.type = b.type ∧ (a.value = b.value ∨ a.type ∈ privateParts)

structure Alike (o o' : Object) : Prop where
  handle : o.handle = o'.handle
  list : o.templateList = o'.templateList ∨
    Guarded o.templateList ∧ List.Forall₂ SameButSecret o.templateList o'.templateList

structure AlikeTokens (l l' : Library) : Prop where
  initialized : l.initialized = l'.initialized
  sessions : l.sessions = l'.sessions
  objects : ∀ slot, List.Forall₂ Alike (l.objects slot).objects (l'.objects slot).objects

variable {garbage : BitVec 64 × BitVec 64} {list list' : List Attribute} {type : BitVec 64}

theorem sameClass (same : List.Forall₂ SameButSecret list list') :
    templateGetClass garbage list = templateGetClass garbage list' := by
  unfold templateGetClass
  induction same generalizing garbage with
  | nil => rfl
  | @cons a b rest rest' here _ later =>
    obtain ⟨type, value | secret⟩ := here
    · rw [List.foldl_cons, List.foldl_cons, type, value]
      exact later
    · have apart : privateParts.all (fun t => decide (t ≠ ckaClass ∧ t ≠ ckaCertificateType ∧ t ≠ ckaKeyType)) = true := by decide
      obtain ⟨cls, cert, key⟩ := of_decide_eq_true (List.all_eq_true.mp apart a.type secret)
      simp only [List.foldl_cons, ← type, if_neg cls, if_neg (not_or.mpr ⟨cert, key⟩)]
      exact later

theorem sameFound (same : List.Forall₂ SameButSecret list list') (shown : type ∉ privateParts) :
    (templateCheckAttr type list).map Attribute.value = (templateCheckAttr type list').map Attribute.value := by
  induction same with
  | nil => rfl
  | @cons a b rest rest' here _ later =>
    obtain ⟨types, value⟩ := here
    rw [templateCheckAttr, templateCheckAttr, ← types]
    split
    next found =>
      subst found
      exact congrArg some (value.resolve_right shown)
    · exact later

theorem guardedHides (guarded : Guarded list) (secret : type ∈ privateParts) :
    checkAttrExportability garbage list type = false := by
  unfold checkAttrExportability
  rw [guarded.privateKey garbage]
  dsimp only
  rw [if_neg (by decide)]
  split
  next sensitive extractable first second =>
    rw [if_neg (guarded.kept _ first _ second), if_pos ⟨rfl, rfl⟩]
    exact decide_eq_false (not_not.mpr secret)
  · rfl

theorem exportableTold (list : List Attribute) : checkAttrExportability garbage list type =
    (let (cls, subclass) := templateGetClass garbage list
    if cls ≠ ckoPrivateKey ∧ cls ≠ ckoSecretKey then true
    else
      match (templateCheckAttr ckaSensitive list).map Attribute.value, (templateCheckAttr ckaExtractable list).map Attribute.value with
      | some sensitive, some extractable =>
        if sensitive.head? = some 0 ∧ extractable.head? = some 1 then true
        else if cls = ckoPrivateKey ∧ subclass = ckkRsa then checkRsaPrivkExportability type
        else true
      | _, _ => false) := by
  unfold checkAttrExportability
  cases templateCheckAttr ckaSensitive list <;> cases templateCheckAttr ckaExtractable list <;> rfl

theorem sameExportable (same : List.Forall₂ SameButSecret list list') :
    checkAttrExportability garbage list type = checkAttrExportability garbage list' type := by
  rw [exportableTold, exportableTold, sameClass same, sameFound same (show ckaSensitive ∉ privateParts by decide),
    sameFound same (show ckaExtractable ∉ privateParts by decide)]

theorem sameEntry (guarded : Guarded list) (same : List.Forall₂ SameButSecret list list') (mem : Memory) (e : TemplateEntry) :
    readEntry garbage list mem e = readEntry garbage list' mem e := by
  unfold readEntry
  rw [← sameExportable same]
  by_cases secret : e.type ∈ privateParts
  · rw [if_pos (guardedHides guarded secret), if_pos (guardedHides guarded secret)]
  · have found := sameFound same secret
    cases first : templateCheckAttr e.type list with
    | none =>
      rw [first] at found
      rw [Option.map_eq_none_iff.mp found.symm]
    | some a =>
      rw [first] at found
      obtain ⟨b, second, value⟩ := Option.map_eq_some_iff.mp found.symm
      rw [second]
      simp only [value]

theorem sameEntries (guarded : Guarded list) (same : List.Forall₂ SameButSecret list list') (entries : List TemplateEntry)
    (ret : Rv) (mem : Memory) : readEntries garbage list entries ret mem = readEntries garbage list' entries ret mem := by
  induction entries generalizing ret mem with
  | nil => rfl
  | cons e rest later => simp only [readEntries, sameEntry guarded same, later]

theorem alikeFound {objects objects' : List Object} (alike : List.Forall₂ Alike objects objects') (h : Nat) :
    Option.Rel Alike (objects.find? fun o => o.handle = h) (objects'.find? fun o => o.handle = h) := by
  induction alike with
  | nil => exact .none
  | @cons o o' rest rest' here _ later =>
    rw [List.find?_cons, List.find?_cons, ← here.handle]
    cases decide (o.handle = h) with
    | true => exact .some here
    | false => exact later

theorem alikeAnswers {l l' : Library} (alike : AlikeTokens l l') (r : Request) (mem : Memory) :
    getAttributeValue garbage l r mem = getAttributeValue garbage l' r mem := by
  unfold getAttributeValue
  rw [← alike.initialized, ← alike.sessions]
  split
  · rfl
  split
  · rfl
  · rfl
  split
  · rfl
  next s _ =>
    split
    · rfl
    have found := alikeFound (alike.objects s.slotId) r.hObject
    generalize (l.objects s.slotId).objects.find? _ = o at found
    generalize (l'.objects s.slotId).objects.find? _ = o' at found
    cases found with
    | none => rfl
    | some here =>
      obtain equal | ⟨guarded, same⟩ := here.list
      · simp only [equal]
      · simp only [sameEntries guarded same]

theorem secretsHidden {l l' : Library} (alike : AlikeTokens l l') (requests : List Request) (mem : Memory) :
    readAll garbage l requests mem = readAll garbage l' requests mem := by
  induction requests generalizing mem with
  | nil => rfl
  | cons r rest later => simp only [readAll, alikeAnswers alike, later]

def keyWith (exponent : Byte) : Library where
  initialized := true
  sessions := fun _ => some ⟨0, 0, 0, 0, false⟩
  objects := fun _ => ⟨[⟨1, [⟨ckaClass, ulongBytes ckoPrivateKey⟩, ⟨ckaKeyType, ulongBytes ckkRsa⟩, ⟨ckaSensitive, bbool true⟩,
    ⟨ckaExtractable, bbool false⟩, ⟨0x123, [exponent]⟩]⟩], by simp⟩
  heap := ⟨fun _ => false, fun _ _ => 0, []⟩

theorem secretsHiddenExponent : readAll (0, 0) (keyWith 1) [⟨0, 1, some [⟨0x123, 8, 1⟩]⟩] (fun _ => 0) =
    readAll (0, 0) (keyWith 2) [⟨0, 1, some [⟨0x123, 8, 1⟩]⟩] fun _ => 0 := by
  refine secretsHidden ⟨rfl, rfl, fun slot => .cons ⟨rfl, .inr ⟨⟨fun garbage => rfl, ?_⟩, ?_⟩⟩ .nil⟩ _ _
  · rintro _ ⟨⟩ _ ⟨⟩ extractable
    exact absurd extractable.1 (by decide)
  · exact .cons ⟨rfl, .inl rfl⟩ (.cons ⟨rfl, .inl rfl⟩ (.cons ⟨rfl, .inl rfl⟩ (.cons ⟨rfl, .inl rfl⟩
      (.cons ⟨rfl, .inr (by decide)⟩ .nil))))

end secrets

section answers
variable (garbage : BitVec 64 × BitVec 64) (list : List Attribute)

def shown (e : TemplateEntry) : Option (List Byte) :=
  if checkAttrExportability garbage list e.type then (templateCheckAttr e.type list).map Attribute.value else none

def Fits (e : TemplateEntry) (value : List Byte) : Prop := value.length ≤ e.ulValueLen.toNat

instance (e : TemplateEntry) (value : List Byte) : Decidable (Fits e value) := inferInstanceAs (Decidable (_ ≤ _))

def answered (e : TemplateEntry) : Option (BitVec 64) :=
  (shown garbage list e).bind fun value => if e.pValue = 0 ∨ Fits e value then some (BitVec.ofNat 64 value.length) else none

def copied (e : TemplateEntry) : Option (Nat × List Byte) :=
  (shown garbage list e).bind fun value => if e.pValue ≠ 0 ∧ Fits e value then some (e.pValue, value) else none

def entryAnswer (e : TemplateEntry) : TemplateEntry := { e with ulValueLen := (answered garbage list e).getD (-1) }

def Outside (x : Nat) (e : TemplateEntry) : Prop := e.pValue = 0 ∨ x < e.pValue ∨ e.pValue + e.ulValueLen.toNat ≤ x

def ApartBuffers (e e' : TemplateEntry) : Prop := ∀ x, Outside x e ∨ Outside x e'

variable {garbage list} {e e' : TemplateEntry} {w w' : Nat × List Byte}

theorem copiedTold : copied garbage list e = some w ↔ ∃ value, shown garbage list e = some value ∧ e.pValue ≠ 0 ∧ Fits e value ∧
    (e.pValue, value) = w := by
  unfold copied
  cases shown garbage list e with
  | none => simp
  | some value => simp [and_assoc]

theorem copiedApart (apart : ApartBuffers e e') (first : copied garbage list e = some w)
    (second : copied garbage list e' = some w') :
    Separate w w' := by
  obtain ⟨value, _, filled, fits, rfl⟩ := copiedTold.mp first
  obtain ⟨value', _, filled', fits', rfl⟩ := copiedTold.mp second
  intro x inside
  obtain outside | outside := apart x <;> simp only [Outside, Beyond, Fits] at * <;> omega

theorem checkedMember {a : Attribute} {type : BitVec 64} (found : templateCheckAttr type list = some a) : a ∈ list := by
  induction list with
  | nil => cases found
  | cons b rest later =>
    rw [templateCheckAttr] at found
    split at found
    · exact Option.some_inj.mp found ▸ List.mem_cons_self
    · exact List.mem_cons_of_mem _ (later found)

theorem entryRead (garbage : BitVec 64 × BitVec 64) (small : ∀ a ∈ list, a.value.length < 2 ^ 64) (mem : Memory)
    (e : TemplateEntry) :
    ((readEntry garbage list mem e).1 = .ok ↔ answered garbage list e ≠ none) ∧
      (readEntry garbage list mem e).2 = (entryAnswer garbage list e, storeAll (copied garbage list e).toList mem) := by
  unfold readEntry entryAnswer answered copied shown
  cases checkAttrExportability garbage list e.type with
  | false => simp [storeAll]
  | true =>
    cases found : templateCheckAttr e.type list with
    | none => simp [storeAll]
    | some a =>
      have length : a.value.length < 2 ^ 64 := small a (checkedMember found)
      have fits : BitVec.ofNat 64 a.value.length ≤ e.ulValueLen ↔ Fits e a.value := by
        rw [BitVec.le_def, BitVec.toNat_ofNat, Nat.mod_eq_of_lt length, Fits]
      simp only [fits]
      by_cases null : e.pValue = 0
      · simp [null, storeAll]
      · by_cases room : Fits e a.value <;> simp [null, room, storeAll]

theorem entriesRead (garbage : BitVec 64 × BitVec 64) (small : ∀ a ∈ list, a.value.length < 2 ^ 64)
    (template : List TemplateEntry) (ret : Rv) (mem : Memory) :
    ((readEntries garbage list template ret mem).1 = .ok ↔ ret = .ok ∧ ∀ e ∈ template, answered garbage list e ≠ none) ∧
      (readEntries garbage list template ret mem).2 =
        (template.map (entryAnswer garbage list), storeAll (template.filterMap (copied garbage list)) mem) := by
  induction template generalizing ret mem with
  | nil => simp [readEntries, storeAll]
  | cons e rest later =>
    obtain ⟨accepted, done⟩ := entryRead garbage small mem e
    obtain ⟨restAccepted, restDone⟩ := later (if (readEntry garbage list mem e).1 = .ok then ret else
      (readEntry garbage list mem e).1) (storeAll (copied garbage list e).toList mem)
    obtain ⟨entry, memory⟩ := Prod.ext_iff.mp done
    obtain ⟨entries, written⟩ := Prod.ext_iff.mp restDone
    simp only [readEntries, memory, entry]
    refine ⟨restAccepted.trans ?_, ?_⟩
    · rw [List.forall_mem_cons, ← accepted]
      by_cases ok : (readEntry garbage list mem e).1 = .ok <;> simp [ok]
    · rw [entries, written]
      cases first : copied garbage list e <;> simp [first, storeAll]

theorem attributesAnswered {l : Library} {r : Request} {s : ObjectSearch.Session} {o : Object} {template : List TemplateEntry}
    (initialized : l.initialized = true) (asked : r.template = some template) (filled : template ≠ [])
    (session : l.sessions r.hSession = some s) (slot : s.slotId < slotCount)
    (object : ((l.objects s.slotId).objects.find? fun o => o.handle = r.hObject) = some o)
    (small : ∀ a ∈ o.templateList, a.value.length < 2 ^ 64) (apart : template.Pairwise ApartBuffers) (mem : Memory) :
    ∃ rv after, getAttributeValue garbage l r mem = (rv, some (template.map (entryAnswer garbage o.templateList)), after) ∧
      (rv = .ok ↔ ∀ e ∈ template, answered garbage o.templateList e ≠ none) ∧
      (∀ e ∈ template, ∀ value ∈ shown garbage o.templateList e, e.pValue ≠ 0 → Fits e value →
        load after e.pValue value.length = value) ∧
      ∀ x, (∀ e ∈ template, ∀ value ∈ shown garbage o.templateList e, e.pValue ≠ 0 → Fits e value →
        x < e.pValue ∨ e.pValue + value.length ≤ x) → after x = mem x := by
  obtain ⟨accepted, done⟩ := entriesRead garbage small template .ok mem
  obtain ⟨entries, written⟩ := Prod.ext_iff.mp done
  refine ⟨_, storeAll (template.filterMap (copied garbage o.templateList)) mem, ?_, accepted.trans (and_iff_right rfl), ?_, ?_⟩
  · cases template with
    | nil => exact absurd rfl filled
    | cons e rest =>
      simp only [getAttributeValue, initialized, asked, session, object, not_true_eq_false, if_false, Nat.not_le.mpr slot,
        entries, written]
  · intro e member value found pointer fits
    have separate : (template.filterMap (copied garbage o.templateList)).Pairwise Separate :=
      List.pairwise_filterMap.mpr (apart.imp fun apart _ first _ second => copiedApart apart first second)
    exact storeAllRead (w := (e.pValue, value)) separate
      (List.mem_filterMap.mpr ⟨e, member, copiedTold.mpr ⟨value, found, pointer, fits, rfl⟩⟩)
  · intro x outside
    refine storeAllOutside fun w member => ?_
    obtain ⟨e, asks, told⟩ := List.mem_filterMap.mp member
    obtain ⟨value, found, pointer, fits, rfl⟩ := copiedTold.mp told
    exact outside e asks value found pointer fits

theorem attributesAnsweredKey : ∃ rv after,
    getAttributeValue (0, 0) (keyWith 7) ⟨0, 1, some [⟨ckaKeyType, 100, 8⟩]⟩ (fun _ => 0) =
    (rv, some [⟨ckaKeyType, 100, 8⟩], after) ∧ rv = .ok ∧ load after 100 8 = ulongBytes ckkRsa := by
  obtain ⟨rv, after, answers, accepted, loaded, _⟩ := attributesAnswered (l := keyWith 7)
    (r := ⟨0, 1, some [⟨ckaKeyType, 100, 8⟩]⟩) (s := ⟨0, 0, 0, 0, false⟩)
    rfl rfl (by decide) rfl (by decide) rfl (by decide) (List.pairwise_singleton _ _) fun _ => 0
  exact ⟨rv, after, answers, accepted.mpr (by decide), loaded ⟨ckaKeyType, 100, 8⟩ (by decide) _ rfl (by decide) (by decide)⟩

end answers
end Flexbuild.AttributeReading
