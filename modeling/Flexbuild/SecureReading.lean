import Flexbuild.SecureMatching

/-! Reading the attributes of a secure object. Lengths, values and errors are as the caller
expects them exactly when a null pointer comes with length zero, a buffer of length zero is not
meant as a buffer that is too short, and a query of lengths finds everything it asks for. -/
namespace Flexbuild.SecureObjects
open ByteMemory Words Results

def Missing (objAttrs : List Attribute) (x : Attribute) : Prop := stored objAttrs x.type = none

def TooShort (objAttrs : List Attribute) (x : Attribute) : Prop :=
  ∃ y, stored objAttrs x.type = some y ∧ x.value ≠ 0 ∧ x.valueLen.toNat < y.valueLen.toNat

structure Served (source : Memory) (objAttrs attrs : List Attribute) (client : Memory)
    (ret : Option Status) (attrs' : List Attribute) (client' : Memory) : Prop where
  same : attrs'.length = attrs.length
  lengths : (∀ x ∈ attrs, x.value = 0) → ∀ i, (inside : i < attrs.length) → ∀ y,
    stored objAttrs attrs[i].type = some y → attrs'[i].valueLen = y.valueLen
  values : (∀ x ∈ attrs, ¬ Missing objAttrs x ∧ ¬ TooShort objAttrs x) → (attrs ≠ [] → ret = none) ∧
    ∀ i, (inside : i < attrs.length) → ∀ y, stored objAttrs attrs[i].type = some y →
      attrs'[i] = { attrs[i] with valueLen := y.valueLen } ∧ (attrs[i].value ≠ 0 →
        load client' attrs[i].value y.valueLen.toNat = load source y.value y.valueLen.toNat)
  errors : (∃ x ∈ attrs, Missing objAttrs x ∨ TooShort objAttrs x) → ret ≠ none
  bounded : ∀ a, (∀ x ∈ attrs, ¬ (x.value ≤ a ∧ a < x.value + x.valueLen.toNat)) → client' a = client a

structure Called (m : Machine) (attrs : List Attribute) (heap dataLen buf address : Nat) : Prop where
  fits : getAttrSize attrs < 2 ^ 32
  apart : (attrs.map fun x => (x.value, x.valueLen.toNat)).Pairwise Disjoint
  aligned : heap % 4 = 0 ∧ buf % 4 = 0 ∧ address % 4 = 0
  heapHigh : heap + dataLen < 2 ^ m.bits
  high : buf + getAttrSize attrs < 2 ^ m.bits

def Fails (objAttrs : List Attribute) (x : Attribute) : Prop :=
  Missing objAttrs x ∨ x.valueLen ≠ 0 ∧ TooShort objAttrs x

def replySize (objAttrs attrs : List Attribute) : Nat :=
  packedSize (attrs.map fun x =>
    patched (objAttrs.filter keeps) { x with value := if x.valueLen = 0 then 0 else x.value })

def Proper (objAttrs attrs : List Attribute) : Prop :=
  Valued attrs ∧ Slotted (replySize objAttrs attrs) attrs ∧
  ((∃ x ∈ attrs, Fails objAttrs x) → (∀ x ∈ attrs, x.value = 0) →
    ∀ x ∈ attrs, ∀ y, stored objAttrs x.type = some y → y.valueLen = 0) ∧
  ((∀ x ∈ attrs, ¬ Fails objAttrs x) → ∀ x ∈ attrs, ¬ TooShort objAttrs x)

def answer (objAttrs : List Attribute) (x : Attribute) : Attribute :=
  match stored objAttrs x.type with
  | none => x
  | some y => { x with valueLen := y.valueLen }

def delivered (source : Memory) (objAttrs : List Attribute) (x : Attribute) : Nat × List Byte :=
  (x.value, match stored objAttrs x.type with
    | none => []
    | some y => if x.valueLen = 0 then [] else load source y.value y.valueLen.toNat)

section
variable {m : Machine} {source data mem client : Memory} {objs objAttrs attrs : List Attribute}
  {x y : Attribute} {heap dataLen buf blen address : Nat}

theorem unmatchedFails (asked : Asked buf blen x y) (valued : y.value = 0 → y.valueLen = 0)
    (related : List.Forall₂ (SameValue data source) objs (objAttrs.filter keeps)) :
    Unmatched objs x ↔ Fails objAttrs y := by
  have full : x.value ≠ 0 ↔ y.valueLen ≠ 0 := not_congr asked.null
  unfold Unmatched Fails Missing TooShort stored
  rw [← asked.type, ← asked.length] at *
  rcases foundRelated related (fun _ _ same => same.type) x.type with ⟨none, none'⟩ | ⟨o, o', some, some', same⟩
  · simp [none, none']
  · simp only [some, some', full, same.length, reduceCtorEq, false_or, Option.some.injEq, exists_eq_left']
    exact ⟨fun ⟨long, short⟩ => ⟨long, fun null => long (valued null), short⟩, fun ⟨long, _, short⟩ => ⟨long, short⟩⟩

theorem answered (asked : Asked buf blen x y) (valued : y.value = 0 → y.valueLen = 0) (matched : ¬ Unmatched objs x)
    (related : List.Forall₂ (SameValue data source) objs (objAttrs.filter keeps))
    (loaded : load mem (copied data objs x).1 (copied data objs x).2.length = (copied data objs x).2) :
    keeps (patched objs x) = true ∧ filled y ((patched objs x).item mem unvalued) = answer objAttrs y ∧
      (y.value, ((patched objs x).item mem unvalued).bytes.getD []) = delivered source objAttrs y ∧
      Ready y ((patched objs x).item mem unvalued) := by
  obtain ⟨type, value⟩ := patchedKeeps objs x
  rcases foundRelated related (fun _ _ same => same.type) x.type with ⟨none, -⟩ | ⟨o, o', some, some', same⟩
  · simp [Unmatched, none] at matched
  · have roomy : x.value ≠ 0 → o.valueLen.toNat ≤ x.valueLen.toNat := by
      simpa [Unmatched, some] using matched
    have length : (patched objs x).valueLen = o.valueLen := by
      unfold patched
      rw [some]
      simp only
      split
      · rfl
      · rw [if_neg (Nat.not_lt.mpr (roomy ‹_›))]
    have kept : keeps (patched objs x) = true := by
      have member := (List.mem_filter.mp (List.mem_of_find?_eq_some some')).2
      have here : o'.type = x.type := by simpa using List.find?_some some'
      unfold keeps at member ⊢
      rwa [type, ← here]
    have stored : stored objAttrs y.type = Option.some o' := by rw [← asked.type]; exact some'
    have empty : unvalued (patched objs x) = true ↔ o.valueLen = 0 ∨ x.value = 0 := by
      rw [unvaluedIff (length ▸ same.small), length, value]
    refine ⟨kept, ?_, ?_, ?_⟩
    · unfold answer filled
      rw [stored]
      change { y with type := (patched objs x).type, valueLen := (patched objs x).valueLen } = _
      rw [type, length, asked.type, same.length]
    · unfold delivered
      rw [stored]
      refine congrArg _ ?_
      change (if unvalued (patched objs x) then Option.none else Option.some _).getD [] = _
      by_cases null : x.value = 0
      · rw [if_pos (empty.mpr (.inr null))]
        exact (if_pos (asked.null.mp null)).symm
      · simp only
        rw [if_neg (mt asked.null.mpr null), ← same.length]
        by_cases zero : o.valueLen = 0
        · rw [if_pos (empty.mpr (.inl zero)), zero]
          rfl
        · have bytes : copied data objs x = (x.value, load data o.value o.valueLen.toNat) := by
            simp [copied, some, null, roomy null]
          rw [bytes] at loaded
          rw [if_neg (mt empty.mp (not_or.mpr ⟨zero, null⟩)), value, length, ← same.bytes]
          simpa using loaded
    · intro bytes null
      exfalso
      have zero : x.value = 0 := asked.null.mpr (valued null)
      exact bytes (if_pos (empty.mpr (.inr zero)))

def Answers (source : Memory) (objAttrs : List Attribute) (y : Attribute) (item : Item) : Prop :=
  filled y item = answer objAttrs y ∧ (y.value, item.bytes.getD []) = delivered source objAttrs y ∧ Ready y item

variable {out : Memory} {l : List Attribute}

theorem patchedSame (asked : Asked buf blen x y)
    (related : List.Forall₂ (SameValue data source) objs (objAttrs.filter keeps)) :
    let there := patched (objAttrs.filter keeps) { y with value := if y.valueLen = 0 then 0 else y.value }
    (y.value = 0 → y.valueLen = 0) → (patched objs x).type = there.type ∧
      (patched objs x).valueLen = there.valueLen ∧ ((patched objs x).value = 0 ↔ there.value = 0) := by
  intro there valued
  have null : x.value = 0 ↔ (if y.valueLen = 0 then 0 else y.value) = 0 := by
    rw [asked.null]
    split
    · exact iff_of_true ‹_› rfl
    · exact iff_of_false ‹_› (mt valued ‹_›)
  refine ⟨?_, ?_, ?_⟩
  · rw [(patchedKeeps objs x).1, (patchedKeeps _ _).1]
    exact asked.type
  · rcases foundRelated related (fun _ _ same => same.type) x.type with ⟨none, none'⟩ | ⟨o, o', some, some', same⟩
    · rw [asked.type] at none none'
      simp only [there, patched, asked.type, none, none']
      exact asked.length
    · rw [asked.type] at some some'
      simp only [there, patched, asked.type, some, some', null, asked.length, same.length, apply_ite Attribute.valueLen]
  · rw [(patchedKeeps objs x).2, (patchedKeeps _ _).2]
    exact null

theorem replySlotted (asked : List.Forall₂ (Asked buf blen) l attrs) (valued : Valued attrs)
    (related : List.Forall₂ (SameValue data source) objs (objAttrs.filter keeps)) :
    Slotted (packedSize (l.map (patched objs))) (l.map (patched objs)) ↔ Slotted (replySize objAttrs attrs) attrs := by
  have sizes : packedSize (l.map (patched objs)) = replySize objAttrs attrs := by
    unfold replySize packedSize
    refine congrArg _ (congrArg _ ?_)
    induction asked with
    | nil => rfl
    | @cons x y rest rest' here _ ih =>
      obtain ⟨first, later⟩ := List.forall_mem_cons.mp valued
      obtain ⟨type, length, null⟩ := patchedSame here related first
      have kept := congrArg storedType type
      have empty : unvalued (patched objs x) = unvalued (patched (objAttrs.filter keeps)
          { y with value := if y.valueLen = 0 then 0 else y.value }) := by
        unfold unvalued
        rw [length]
        exact decide_eq_decide.mpr (or_congr_right null)
      rw [List.map_cons, List.map_cons, List.map_cons, List.map_cons, ih later, keeps, kept, empty, length]
      rfl
  have types := @patchedTypes objs attrs blen buf l asked
  have long : (l.map (patched objs)).length = attrs.length := by simpa using asked.length_eq
  have kind (i : Nat) (inside : i < (l.map (patched objs)).length) (inside' : i < attrs.length) :
      keeps (l.map (patched objs))[i] = keeps attrs[i] := by
    have same := List.getElem_of_eq types (by simpa using inside : i < ((l.map (patched objs)).map Attribute.type).length)
    rw [List.getElem_map Attribute.type, List.getElem_map Attribute.type] at same
    exact congrArg storedType same
  rw [sizes, Slotted, Slotted]
  exact ⟨fun all i inside kept => all i (long ▸ inside) ((kind i _ inside).trans kept),
    fun all i inside kept => all i (long ▸ inside) ((kind i inside _).symm.trans kept)⟩

theorem storedNone (lacks : keeps x = false) : stored objAttrs x.type = none := by
  refine List.find?_eq_none.mpr fun y member same => ?_
  have kept := (List.mem_filter.mp member).2
  have type : y.type = x.type := by simpa using same
  unfold keeps at kept lacks
  rw [type, lacks] at kept
  cases kept

theorem failsNone (asked : List.Forall₂ (Asked buf blen) l attrs) (valued : Valued attrs)
    (related : List.Forall₂ (SameValue data source) objs (objAttrs.filter keeps)) :
    (∀ x ∈ l, ¬ Unmatched objs x) ↔ ∀ y ∈ attrs, ¬ Fails objAttrs y := by
  induction asked with
  | nil => exact iff_of_true nofun nofun
  | cons here _ ih =>
    obtain ⟨first, later⟩ := List.forall_mem_cons.mp valued
    rw [List.forall_mem_cons, List.forall_mem_cons, ih later, unmatchedFails here first related]

theorem answersAll (asked : List.Forall₂ (Asked buf blen) l attrs) (before : l.Pairwise Before) (valued : Valued attrs)
    (related : List.Forall₂ (SameValue data source) objs (objAttrs.filter keeps))
    (matched : ∀ x ∈ l, ¬ Unmatched objs x) :
    List.Forall₂ (Answers source objAttrs) attrs (((l.map (patched objs)).filter keeps).map fun x =>
      x.item (storeAll (l.map (copied data objs)) mem) unvalued) := by
  have loaded (x : Attribute) (member : x ∈ l) := @storeAllRead mem _ (copied data objs x)
    (copiedApart before) (List.mem_map_of_mem member)
  have each : List.Forall₂ (fun y x => keeps (patched objs x) = true ∧ Answers source objAttrs y ((patched objs x).item
      (storeAll (l.map (copied data objs)) mem) unvalued)) attrs l := by
    have both := (List.forall₂_and_left _ _).mpr ⟨fun x member => And.intro (loaded x member) (matched x member), asked⟩
    refine ((List.forall₂_and_left _ _).mpr ⟨valued, both.flip⟩).imp fun y x ⟨valued, ⟨loaded, matched⟩, asked⟩ => ?_
    exact answered asked valued matched related loaded
  have kept (x : Attribute) (member : x ∈ l.map (patched objs)) : keeps x = true := by
    obtain ⟨z, here, rfl⟩ := List.mem_map.mp member
    obtain ⟨j, inside, rfl⟩ := List.mem_iff_getElem.mp here
    obtain ⟨long, all⟩ := List.forall₂_iff_get.mp each
    exact (all j (long ▸ inside) inside).1
  rw [List.filter_eq_self.mpr kept, List.map_map]
  exact List.forall₂_map_right_iff.mpr (each.imp fun _ _ both => both.2)

def NoStatus {α : Type} (r : Result α) : Prop := ∀ code, r ≠ .error (.status code)

theorem NoStatus.bind {α β : Type} {r : Result α} {f : α → Result β} (first : NoStatus r)
    (later : ∀ a, NoStatus (f a)) : NoStatus (r >>= f) := by
  intro code failed
  rcases bindError.mp failed with here | ⟨a, -, there⟩
  · exact first code here
  · exact later a code there

theorem putNoStatus (size : Nat) (a : Nat) (bytes : List Byte) : NoStatus (put size mem a bytes) := by
  intro code
  unfold put
  split <;> exact nofun

theorem fetchNoStatus (value n : Nat) : NoStatus (fetch mem value n) := by
  intro code
  unfold fetch
  split <;> exact nofun

theorem packAttrNoStatus (size n : Nat) (empty : Bool) (b : Nat) : NoStatus (packAttr mem size n empty x out b) := by
  unfold packAttr
  refine (putNoStatus _ _ _).bind fun _ => (putNoStatus _ _ _).bind fun _ => ?_
  cases empty with
  | true => exact (putNoStatus _ _ _).bind fun _ => nofun
  | false =>
    exact (fetchNoStatus _ _).bind fun _ => (putNoStatus _ _ _).bind fun _ => (putNoStatus _ _ _).bind fun _ => nofun

theorem packLoopNoStatus {size n b : Nat} {keep empty : Attribute → Bool} :
    NoStatus (packLoop mem size keep empty l n out b) := by
  induction l generalizing n out b with
  | nil => exact nofun
  | cons x rest ih =>
    rw [packLoop]
    split
    · exact (packAttrNoStatus _ _ _ _).bind fun _ => ih
    · exact ih

theorem packSkAttrsNoStatus : NoStatus (packSkAttrs mem attrs) := by
  unfold packSkAttrs
  split
  · exact nofun
  · exact (putNoStatus _ _ _).bind fun _ => packLoopNoStatus.bind fun _ => nofun

theorem packAttrsNoStatus (buffer : Memory) : NoStatus (packAttrs client buffer (getAttrSize attrs) attrs) := by
  have some : getAttrSize attrs ≠ 0 := by
    unfold getAttrSize
    omega
  rw [packAttrs, if_neg some]
  exact (putNoStatus _ _ _).bind fun _ => packLoopNoStatus

theorem taGetObjectAttributesRan (kept : Kept source objAttrs data dataLen)
    (called : Called m attrs heap dataLen buf address) (valued : Valued attrs)
    (packed : Packed out (getAttrSize attrs) (attrs.map fun x => x.item client plain)) :
    ((∀ x ∈ attrs, ¬ Fails objAttrs x) → ∃ reply items,
      taGetObjectAttributes m (some (data, dataLen)) heap (placed buf out) buf (getAttrSize attrs) = .ok reply ∧
      Packed (fun i => reply (buf + i)) (getAttrSize attrs) items ∧
      List.Forall₂ (Answers source objAttrs) attrs items) ∧
    ((∃ x ∈ attrs, Fails objAttrs x) → Slotted (replySize objAttrs attrs) attrs → ∃ code,
      taGetObjectAttributes m (some (data, dataLen)) heap (placed buf out) buf (getAttrSize attrs) =
        .error (.status code)) ∧
    (¬ Slotted (replySize objAttrs attrs) attrs →
      taGetObjectAttributes m (some (data, dataLen)) heap (placed buf out) buf (getAttrSize attrs) =
        .error .fault) := by
  obtain ⟨room, objs, objsUnpacked, related⟩ := kept.unpacked called.aligned.1 called.heapHigh
  obtain ⟨l, unpacked, asked, before⟩ := requestUnpacked packed called.aligned.2.1 called.high
  have sound (y : Attribute) (member : y ∈ objs) : y.value = 0 → y.valueLen = 0 := by
    obtain ⟨j, inside, rfl⟩ := List.mem_iff_getElem.mp member
    obtain ⟨long, all⟩ := List.forall₂_iff_get.mp related
    exact (all j inside (long ▸ inside)).null
  obtain ⟨res, matched, none⟩ := @matchAttrsRun (placed heap data) objs sound l (placed buf out) none
  have fails := failsNone asked valued related
  have run : taGetObjectAttributes m (some (data, dataLen)) heap (placed buf out) buf (getAttrSize attrs) =
      packSkAttrs (storeAll (l.map (copied (placed heap data) objs)) (placed buf out)) (l.map (patched objs)) >>=
        fun r => if getAttrSize attrs < r.2 then .error (.status .shortBuffer)
          else res.elim (.ok (store (storeAll (l.map (copied (placed heap data) objs)) (placed buf out)) buf
            (load r.1 0 r.2))) fun code => .error (.status code) := by
    rw [taGetObjectAttributes, unpacked]
    change (if _ then _ else _) = _
    rw [if_neg (by omega), objsUnpacked]
    change (matchAttrs _ _ _ _ _ >>= _) = _
    rw [matched]
    cases res <;> rfl
  have size := @patchedSize objs attrs _ buf l asked
  have slots := replySlotted asked valued related
  rw [run]
  refine ⟨fun served => ?_, ?_, fun outside => ?_⟩
  · have clear := fails.mpr served
    have kept (y : Attribute) (member : y ∈ attrs) : keeps y = true := by
      by_contra lacks
      exact served y member (.inl (storedNone (Bool.not_eq_true _ ▸ lacks)))
    obtain ⟨out', outLen, packed', le, whole⟩ := @replyPacked (storeAll (l.map (copied (placed heap data) objs))
      (placed buf out)) objs attrs _ buf l asked
      (List.pairwise_of_forall_mem_list fun x member _ _ _ => kept x member) called.fits fun empty => by
        subst empty
        cases asked
        exact packed.frame le_rfl called.fits fun i _ => congrArg out (Nat.add_sub_cancel_left buf i)
    rw [packed', none.mpr ⟨rfl, clear⟩]
    exact ⟨_, _, if_neg (by omega), whole, answersAll asked before valued related clear⟩
  · rintro ⟨x, member, wrong⟩ inside
    obtain ⟨r, packed'⟩ := packSkAttrsRuns.mpr (slots.mpr inside)
    have some : l.map (patched objs) ≠ [] := by
      intro zero
      have long := asked.length_eq
      rw [List.map_eq_nil_iff.mp zero] at long
      rw [List.length_eq_zero_iff.mp long.symm] at member
      cases member
    have le := (packSkAttrsRan some packed').1
    cases res with
    | none => exact absurd wrong (fails.mp (none.mp rfl).2 x member)
    | some code =>
      refine ⟨code, ?_⟩
      rw [packed']
      exact if_neg (by omega)
  · have never := mt (@packSkAttrsRuns (storeAll (l.map (copied (placed heap data) objs)) (placed buf out))
      (l.map (patched objs))).mp (mt slots.mp outside)
    have noStatus := @packSkAttrsNoStatus (storeAll (l.map (copied (placed heap data) objs)) (placed buf out))
      (l.map (patched objs))
    cases packed' : packSkAttrs (storeAll (l.map (copied (placed heap data) objs)) (placed buf out))
        (l.map (patched objs)) with
    | ok r => exact absurd ⟨r, packed'⟩ never
    | error failure =>
      cases failure with
      | fault => rfl
      | status code => exact absurd packed' (noStatus code)

theorem answersZip {items : List Item} (answers : List.Forall₂ (Answers source objAttrs) attrs items) :
    List.zipWith filled attrs items = attrs.map (answer objAttrs) ∧
      writes attrs items = attrs.map (delivered source objAttrs) := by
  induction answers with
  | nil => exact ⟨rfl, rfl⟩
  | cons here _ ih =>
    obtain ⟨same, bytes, -⟩ := here
    rw [List.zipWith_cons_cons, writesCons, same, bytes, ih.1, ih.2]
    exact ⟨rfl, rfl⟩

theorem skGetObjectAttributeRan (kept : Kept source objAttrs data dataLen)
    (called : Called m attrs heap dataLen buf address) (valued : Valued attrs) (buffer : Memory) :
    ((∀ x ∈ attrs, ¬ Fails objAttrs x) →
      skGetObjectAttribute m (some (data, dataLen)) heap buf address buffer client attrs =
        .ok (if attrs = [] then some .badParameters else none, attrs.map (answer objAttrs),
          storeAll (attrs.map (delivered source objAttrs)) client)) ∧
    ((∃ x ∈ attrs, Fails objAttrs x) → Slotted (replySize objAttrs attrs) attrs → ∃ code,
      skGetObjectAttribute m (some (data, dataLen)) heap buf address buffer client attrs =
        .ok (some code, attrs, client)) ∧
    (¬ Slotted (replySize objAttrs attrs) attrs →
      skGetObjectAttribute m (some (data, dataLen)) heap buf address buffer client attrs = .error .fault) := by
  obtain ⟨out, packed, whole⟩ := @packAttrsPacked client attrs buffer valued called.fits
  obtain ⟨served, refused, overflows⟩ := taGetObjectAttributesRan kept called valued whole
  refine ⟨fun clear => ?_, fun wrong inside => ?_, fun outside => ?_⟩
  · obtain ⟨reply, items, run, shared, answers⟩ := served clear
    obtain ⟨zip, copies⟩ := answersZip answers
    have delivers := @unpackAttrsDelivers m _ _ items shared address called.aligned.2.2 attrs
      (answers.imp fun _ _ both => both.2.2) client
    simp only [skGetObjectAttribute, packed, run, delivers, zip, copies]
    rfl
  · obtain ⟨code, run⟩ := refused wrong inside
    refine ⟨code, ?_⟩
    simp only [skGetObjectAttribute, packed, run]
  · simp only [skGetObjectAttribute, packed, overflows outside]

theorem packLoopValued {size n b : Nat} {keep empty : Attribute → Bool} {r : Memory × Nat}
    (done : packLoop mem size keep empty l n out b = .ok r) :
    ∀ x ∈ l, keep x = true → empty x = false → x.value ≠ 0 := by
  induction l generalizing n out b with
  | nil => exact nofun
  | cons x rest ih =>
    rw [packLoopCons] at done
    rw [List.forall_mem_cons]
    split at done
    · obtain ⟨mid, packed, run⟩ := done
      refine ⟨fun _ full => ?_, ih run⟩
      rw [full] at packed
      exact (packAttrFull.mp packed).2.1
    · exact ⟨fun kept => absurd kept ‹_›, ih done⟩

theorem skGetObjectAttributeValued {object : Option (Memory × Nat)} {buffer : Memory}
    {r : Option Status × List Attribute × Memory}
    (done : skGetObjectAttribute m object heap buf address buffer client attrs = .ok r) : Valued attrs := by
  unfold skGetObjectAttribute at done
  have never := @packAttrsNoStatus client attrs buffer
  cases packed : packAttrs client buffer (getAttrSize attrs) attrs with
  | error failure =>
    cases failure with
    | fault =>
      simp only [packed] at done
      cases done
    | status code => exact absurd packed (never code)
  | ok r =>
    unfold packAttrs at packed
    split at packed
    · cases packed
    · obtain ⟨-, run⟩ := putBind.mp packed
      intro x member null
      have valued := packLoopValued run x member rfl
      by_contra full
      exact valued (decide_eq_false full) null

end

section
variable {m : Machine} {source data buffer client : Memory} {objAttrs attrs : List Attribute}
  {heap dataLen buf address : Nat}

theorem answerFound {x y : Attribute} (found : stored objAttrs x.type = some y) :
    answer objAttrs x = { x with valueLen := y.valueLen } := by
  unfold answer
  rw [found]

theorem deliveredWithin {x : Attribute} (valued : x.value = 0 → x.valueLen = 0) (clear : ¬ Fails objAttrs x) {i : Nat}
    (within : ¬ Beyond i (delivered source objAttrs x)) : x.value ≤ i ∧ i < x.value + x.valueLen.toNat := by
  unfold Beyond delivered at within
  simp only at within
  split at within
  · simp only [List.length_nil] at within
    omega
  · split at within
    · simp only [List.length_nil] at within
      omega
    · rename_i y found full
      rw [loadLength] at within
      have roomy : y.valueLen.toNat ≤ x.valueLen.toNat := by
        by_contra short
        exact clear (.inr ⟨full, y, found, fun null => full (valued null), by omega⟩)
      omega

theorem deliveredApart (apart : (attrs.map fun x => (x.value, x.valueLen.toNat)).Pairwise Disjoint)
    (valued : Valued attrs) (clear : ∀ x ∈ attrs, ¬ Fails objAttrs x) :
    (attrs.map (delivered source objAttrs)).Pairwise Separate := by
  rw [List.pairwise_map] at apart ⊢
  refine apart.imp_of_mem fun {x y} here there disjoint i within => ?_
  by_contra both
  obtain ⟨low, high⟩ := deliveredWithin (valued x here) (clear x here) within
  exact disjoint i low high (deliveredWithin (valued y there) (clear y there) both)

theorem servedIff (called : Called m attrs heap dataLen buf address) (valued : Valued attrs)
    (clear : ∀ x ∈ attrs, ¬ Fails objAttrs x) :
    Served source objAttrs attrs client (if attrs = [] then some .badParameters else none)
      (attrs.map (answer objAttrs)) (storeAll (attrs.map (delivered source objAttrs)) client) ↔
    ∀ x ∈ attrs, ¬ TooShort objAttrs x := by
  constructor
  · intro served x member short
    exact served.errors ⟨x, member, .inr short⟩ (if_neg (List.ne_nil_of_mem member))
  · intro roomy
    refine ⟨List.length_map _, fun _ i inside y found => ?_, fun _ => ⟨fun some => if_neg some, fun i inside y found => ?_⟩,
      ?_, fun a outside => ?_⟩
    · rw [List.getElem_map, answerFound found]
    · rw [List.getElem_map]
      refine ⟨answerFound found, fun full => ?_⟩
      by_cases none : attrs[i].valueLen = 0
      · have zero : y.valueLen.toNat = 0 := by
          by_contra long
          exact roomy _ (List.getElem_mem inside) ⟨y, found, full, none ▸ Nat.pos_of_ne_zero long⟩
        rw [zero]
        rfl
      · have bytes : delivered source objAttrs attrs[i] = (attrs[i].value, load source y.value y.valueLen.toNat) := by
          unfold delivered
          rw [found]
          exact congrArg _ (if_neg none)
        have read := @storeAllRead client _ (delivered source objAttrs attrs[i])
          (@deliveredApart source objAttrs attrs called.apart valued clear) (List.mem_map_of_mem (List.getElem_mem inside))
        rw [bytes] at read
        simpa using read
    · rintro ⟨x, member, missing | short⟩
      · exact absurd (.inl missing) (clear x member)
      · exact absurd short (roomy x member)
    · refine storeAllOutside fun w member => ?_
      obtain ⟨x, here, rfl⟩ := List.mem_map.mp member
      by_contra within
      exact outside x here (deliveredWithin (valued x here) (clear x here) within)

theorem refusedIff (valued : Valued attrs) (wrong : ∃ x ∈ attrs, Fails objAttrs x) (code : Status) :
    Served source objAttrs attrs client (some code) attrs client ↔
      ((∀ x ∈ attrs, x.value = 0) → ∀ x ∈ attrs, ∀ y, stored objAttrs x.type = some y → y.valueLen = 0) := by
  constructor
  · intro served query x member y found
    obtain ⟨i, inside, rfl⟩ := List.mem_iff_getElem.mp member
    rw [← served.lengths query i inside y found]
    exact valued _ member (query _ member)
  · intro lengths
    refine ⟨rfl, fun query i inside y found => ?_, fun found => ?_, fun _ => nofun, fun _ _ => rfl⟩
    · have member : attrs[i] ∈ attrs := List.getElem_mem inside
      rw [lengths query _ member y found]
      exact valued _ member (query _ member)
    · obtain ⟨x, member, missing | ⟨-, short⟩⟩ := wrong
      · exact absurd missing (found x member).1
      · exact absurd short (found x member).2

end

theorem attributesRead {m : Machine} {source data buffer client : Memory} {objAttrs attrs : List Attribute}
    {heap dataLen buf address : Nat} (kept : Kept source objAttrs data dataLen)
    (called : Called m attrs heap dataLen buf address) :
    (∃ ret attrs' client',
      skGetObjectAttribute m (some (data, dataLen)) heap buf address buffer client attrs = .ok (ret, attrs', client') ∧
      Served source objAttrs attrs client ret attrs' client') ↔ Proper objAttrs attrs := by
  by_cases valued : Valued attrs
  · obtain ⟨served, refused, overflows⟩ := @skGetObjectAttributeRan m source data client objAttrs attrs heap dataLen
      buf address kept called valued buffer
    rw [Proper, and_iff_right valued]
    by_cases clear : ∀ x ∈ attrs, ¬ Fails objAttrs x
    · have run := served clear
      have inside : Slotted (replySize objAttrs attrs) attrs := by
        by_contra outside
        rw [overflows outside] at run
        cases run
      have never : ¬ ∃ x ∈ attrs, Fails objAttrs x := fun ⟨x, member, wrong⟩ => clear x member wrong
      rw [and_iff_right inside, and_iff_right fun wrong => absurd wrong never, forall_prop_of_true clear,
        ← @servedIff m source client objAttrs attrs heap dataLen buf address called valued clear]
      simp [run]
    · have wrong : ∃ x ∈ attrs, Fails objAttrs x := by
        push Not at clear
        exact clear
      rw [imp_iff_right wrong, and_iff_left (fun none => absurd none clear)]
      by_cases inside : Slotted (replySize objAttrs attrs) attrs
      · obtain ⟨code, run⟩ := refused wrong inside
        rw [and_iff_right inside, ← @refusedIff source client objAttrs attrs valued wrong code]
        simp [run]
      · refine iff_of_false ?_ fun both => inside both.1
        rintro ⟨ret, attrs', client', run, -⟩
        rw [overflows inside] at run
        cases run
  · refine iff_of_false ?_ fun proper => valued proper.1
    rintro ⟨ret, attrs', client', run, -⟩
    exact valued (skGetObjectAttributeValued run)

def exampleAttrs : List Attribute := [⟨skAttrModulus, 0x100, 4⟩]

def exampleSource : Memory := fun i => BitVec.ofNat 8 i

theorem exampleStored : stored exampleAttrs skAttrModulus = some ⟨skAttrModulus, 0x100, 4⟩ := by decide

theorem exampleKept : ∃ data, Kept exampleSource exampleAttrs data 20 := by
  have first : StoredFirst exampleAttrs := List.pairwise_singleton _ _
  obtain ⟨data, packed, -⟩ := @packSkAttrsPacked exampleSource exampleAttrs (by decide) first (by decide)
  exact ⟨data, by decide, List.forall_mem_singleton.mpr (by decide), first,
    List.forall_mem_singleton.mpr (by decide), by decide, packed⟩

theorem exampleCalled (valueLen : BitVec 16) (small : getAttrSize [⟨skAttrModulus, 0x200, valueLen⟩] ≤ 20) :
    Called .narrow [⟨skAttrModulus, 0x200, valueLen⟩] 0x3000 20 0x4000 0x5000 :=
  ⟨by omega, List.pairwise_singleton _ _, by decide, by decide, (Nat.add_le_add_left small _).trans_lt (by decide)⟩

theorem attributesReadExample : ∃ data, packSkAttrs exampleSource exampleAttrs = .ok (data, 20) ∧
    ∃ ret attrs' client', skGetObjectAttribute .narrow (some (data, 20)) 0x3000 0x4000 0x5000 (fun _ => 0) (fun _ => 0)
      [⟨skAttrModulus, 0x200, 4⟩] = .ok (ret, attrs', client') ∧
      Served exampleSource exampleAttrs [⟨skAttrModulus, 0x200, 4⟩] (fun _ => 0) ret attrs' client' := by
  obtain ⟨data, kept⟩ := exampleKept
  refine ⟨data, kept.packed, (attributesRead kept (exampleCalled 4 (by decide))).mpr ⟨?_, ?_, ?_, ?_⟩⟩
  · exact List.forall_mem_singleton.mpr (by decide)
  · intro i inside _
    cases Nat.lt_one_iff.mp inside
    decide
  · exact fun _ query => absurd (query _ (List.mem_singleton_self _)) (by decide)
  · refine fun _ => List.forall_mem_singleton.mpr ?_
    rintro ⟨y, found, -, less⟩
    cases exampleStored.symm.trans found
    exact absurd less (by decide)

theorem shortUnreported : ∃ data, packSkAttrs exampleSource exampleAttrs = .ok (data, 20) ∧
    TooShort exampleAttrs ⟨skAttrModulus, 0x200, 0⟩ ∧
    skGetObjectAttribute .narrow (some (data, 20)) 0x3000 0x4000 0x5000 (fun _ => 0) (fun _ => 0)
      [⟨skAttrModulus, 0x200, 0⟩] = .ok (none, [⟨skAttrModulus, 0x200, 4⟩], fun _ => 0) := by
  obtain ⟨data, kept⟩ := exampleKept
  have clear : ¬ Fails exampleAttrs ⟨skAttrModulus, 0x200, 0⟩ := by
    rintro (missing | ⟨full, -⟩)
    · cases exampleStored.symm.trans missing
    · exact full rfl
  refine ⟨data, kept.packed, ⟨_, exampleStored, by decide, by decide⟩, ?_⟩
  refine ((skGetObjectAttributeRan kept (exampleCalled 0 (by decide)) (List.forall_mem_singleton.mpr (by decide))
    (fun _ => 0)).1 (List.forall_mem_singleton.mpr clear)).trans ?_
  rw [List.map_singleton, List.map_singleton, answerFound exampleStored]
  simp [delivered, exampleStored, storeAll]

end Flexbuild.SecureObjects
