import Flexbuild.SecureReading
import Mathlib.Data.List.Nodup

/-! The search of the trusted application in its storage. The capacity of the answer is looked at behind each
object that was put in it. What is found are the objects that have each attribute of the template as the first
of its type, as many as the loops take. -/
namespace Flexbuild.SecureObjects
open ByteMemory Words Results

structure Persistent where
  id : List Byte
  data : Memory
  dataSize : Nat

def dbObjId : List Byte := [0x6f, 0x62, 0x6a, 0x5f, 0x64, 0x62, 0x00]

def getObjDbIdSize : Nat := dbObjId.length

structure Storage where
  objects : List Persistent
  ids : ∀ o ∈ objects, o.id.length = 4 ∨ o.id = dbObjId
  distinct : (objects.map Persistent.id).Nodup

def taCompareSkAttr (mem mem' : Memory) (a1 a2 : Attribute) : Result Bool :=
  if a1.type ≠ a2.type then .ok false
  else if a1.valueLen ≠ a2.valueLen then .ok false
  else if a1.valueLen ≠ 0 ∧ (a1.value = 0 ∨ a2.value = 0) then .error .fault
  else .ok (load mem a1.value a1.valueLen.toNat = load mem' a2.value a1.valueLen.toNat)

def matchLoop (mem data : Memory) (objAttrs : List Attribute) : List Attribute → Bool → Result Bool
  | [], found => .ok found
  | x :: rest, _ =>
    match taGetSkAttr x.type objAttrs with
    | none => .ok false
    | some y => do
      let found ← taCompareSkAttr mem data x y
      if found then matchLoop mem data objAttrs rest found else return found

def openPersistentObject (objects : List Persistent) (id : List Byte) : Result Persistent :=
  match objects.find? fun o => o.id = id with
  | some o => .ok o
  | none => .error (.status .itemNotFound)

-- `objId` is the buffer for ids, of which four bytes are taken. The data is read to `heap`.
def matchAttrObj (m : Machine) (objects : List Persistent) (heap : List Byte → Nat) (mem : Memory)
    (attrs : List Attribute) (objId : List Byte) (dataSize : Nat) : Result Bool := do
  let object ← openPersistentObject objects (objId.take 4)
  if dataSize < 4 then .error .fault
  else
    let data := placed (heap (objId.take 4)) object.data
    let objAttrs ← unpackSkAttrs m data (heap (objId.take 4)) (min dataSize object.dataSize)
    matchLoop mem data objAttrs attrs false

-- The walk over the objects, whose end is an item that is not found. So is an object that cannot be opened.
def enumerate (skips : Nat → Bool) (matching : List Byte → Nat → Result Bool) (maxObjCnt : Nat) :
    List Persistent → List Byte → Memory → Nat → Result (Memory × Nat)
  | [], _, out, cnt => .ok (out, cnt)
  | o :: rest, objId, out, cnt =>
    let objId := o.id ++ objId.drop o.id.length
    if skips o.id.length then enumerate skips matching maxObjCnt rest objId out cnt
    else
      match matching objId o.dataSize with
      | .error (.status .itemNotFound) => .ok (out, cnt)
      | .error failure => .error failure
      | .ok false => enumerate skips matching maxObjCnt rest objId out cnt
      | .ok true =>
        let out := store out (4 * cnt) (objId.take 4)
        if maxObjCnt ≤ cnt + 1 then .ok (out, cnt + 1)
        else enumerate skips matching maxObjCnt rest objId out (cnt + 1)

def teeObjectIdMaxLen : Nat := 64

def startEnumerator (objects : List Persistent) : Result Unit :=
  if objects = [] then .error (.status .itemNotFound) else .ok ()

def taFindAllObjects (objects : List Persistent) (out : Memory) (maxObjCnt : Nat) : Result (Memory × Nat) := do
  startEnumerator objects
  enumerate (fun objIdLen => objIdLen ≠ 4) (fun _ _ => .ok true) maxObjCnt objects
    (List.replicate teeObjectIdMaxLen 0) out 0

def taFindAttrMatchObjects (m : Machine) (objects : List Persistent) (heap : List Byte → Nat) (mem : Memory)
    (attrs : List Attribute) (out : Memory) (maxObjCnt : Nat) : Result (Memory × Nat) := do
  startEnumerator objects
  enumerate (fun objIdLen => objIdLen = getObjDbIdSize) (matchAttrObj m objects heap mem attrs) maxObjCnt objects
    (List.replicate teeObjectIdMaxLen 0) out 0

def taFindObjects (m : Machine) (objects : List Persistent) (heap : List Byte → Nat) (mem : Memory) (buf blen : Nat)
    (out : Memory) (size : Nat) : Result (Memory × Nat) := do
  let maxObjCnt := wrap 32 (size / 4)
  let attrs ← unpackSkAttrs m mem buf blen
  if attrs = [] then taFindAllObjects objects out maxObjCnt
  else taFindAttrMatchObjects m objects heap mem attrs out maxObjCnt

section Compare

variable {m : Machine} {mem data : Memory} {x y : Attribute} {attrs objAttrs : List Attribute} {b : Bool}

theorem compared (done : taCompareSkAttr mem data x y = .ok b) : b = decide (x.view mem = y.view data) := by
  unfold taCompareSkAttr at done
  split at done
  · next types =>
    cases done
    exact (decide_eq_false fun same => types (congrArg Prod.fst same)).symm
  · next types =>
    split at done
    · next lengths =>
      cases done
      exact (decide_eq_false fun same => lengths (congrArg (fun v => v.2.1) same)).symm
    · next lengths =>
      have sameType : x.type = y.type := not_not.1 types
      have sameLength : x.valueLen = y.valueLen := not_not.1 lengths
      split at done
      · cases done
      · next reads =>
        cases done
        refine decide_eq_decide.2 ?_
        unfold Attribute.view
        rw [sameType, sameLength, Prod.mk.injEq, Prod.mk.injEq]
        simp only [true_and]
        by_cases none : y.valueLen = 0
        · simp [none]
        · obtain ⟨fullX, fullY⟩ := not_or.1 fun null => reads ⟨sameLength ▸ none, null⟩
          rw [if_neg fullX, if_neg fullY]

def firstMatches (mem data : Memory) (objAttrs : List Attribute) (x : Attribute) : Bool :=
  match taGetSkAttr x.type objAttrs with
  | none => false
  | some y => x.view mem = y.view data

theorem matchLoopFound (done : matchLoop mem data objAttrs attrs true = .ok b) :
    b = attrs.all (firstMatches mem data objAttrs) := by
  induction attrs with
  | nil =>
    cases done
    rfl
  | cons x rest later =>
    rw [List.all_cons]
    rw [matchLoop] at done
    cases first : taGetSkAttr x.type objAttrs with
    | none =>
      rw [first] at done
      cases done
      rw [firstMatches, first, Bool.false_and]
    | some y =>
      rw [first] at done
      obtain ⟨found, same, done⟩ := bindOk.1 done
      have value := compared same
      have here : firstMatches mem data objAttrs x = found := by rw [firstMatches, first, value]
      rw [here]
      cases found with
      | true => exact later done
      | false =>
        cases done
        rfl

theorem matchLoopStarts (some : attrs ≠ []) (found : Bool) :
    matchLoop mem data objAttrs attrs found = matchLoop mem data objAttrs attrs true := by
  cases attrs with
  | nil => exact absurd rfl some
  | cons => rfl

theorem matchLoopStatus (attrs : List Attribute) (found : Bool) (code : Status) :
    matchLoop mem data objAttrs attrs found ≠ .error (.status code) := by
  induction attrs generalizing found with
  | nil => exact nofun
  | cons x rest later =>
    rw [matchLoop]
    split
    · exact nofun
    · next y first =>
      intro failed
      rcases bindError.1 failed with failed | ⟨found, -, failed⟩
      · unfold taCompareSkAttr at failed
        repeat' split at failed
        all_goals cases failed
      · cases found with
        | true => exact later true failed
        | false => cases failed

theorem unpackLoopStatus {buf blen alloc left n : Nat} :
    unpackLoop m mem buf blen alloc left n ≠ .error (.status .itemNotFound) := by
  induction left generalizing n with
  | zero =>
    intro failed
    cases failed
  | succ left later =>
    rw [unpackLoop]
    intro failed
    split at failed
    · cases failed
    · dsimp only at failed
      split at failed
      · cases failed
      · rcases bindError.1 failed with failed | ⟨rest, -, failed⟩
        · exact later failed
        · cases failed

theorem unpackSkAttrsStatus {buf blen : Nat} : unpackSkAttrs m mem buf blen ≠ .error (.status .itemNotFound) := by
  unfold unpackSkAttrs
  split
  · exact nofun
  · split
    · exact nofun
    · dsimp only
      split
      · exact nofun
      · exact unpackLoopStatus

end Compare

section Walk

variable {m : Machine} {heap : List Byte → Nat} {mem out out' : Memory} {attrs : List Attribute}
  {skips : Nat → Bool} {matching : List Byte → Nat → Result Bool} {good : Persistent → Bool} {maxObjCnt cnt cnt' : Nat}
  {objects : List Persistent} {objId : List Byte} {o : Persistent}

def Persistent.isClient (o : Persistent) : Bool := o.id.length = 4

def Persistent.memory (heap : List Byte → Nat) (o : Persistent) : Memory := placed (heap o.id) o.data

def Persistent.held (m : Machine) (heap : List Byte → Nat) (o : Persistent) : List Attribute :=
  match unpackSkAttrs m (o.memory heap) (heap o.id) o.dataSize with
  | .ok attrs => attrs
  | .error _ => []

def Persistent.has (m : Machine) (heap : List Byte → Nat) (mem : Memory) (attrs : List Attribute) (o : Persistent) : Bool :=
  attrs.all fun x => (o.held m heap).any fun y => x.view mem = y.view (o.memory heap)

def Persistent.hasFirst (m : Machine) (heap : List Byte → Nat) (mem : Memory) (attrs : List Attribute) (o : Persistent) :
    Bool := attrs.all (firstMatches mem (o.memory heap) (o.held m heap))

theorem firstHas (found : o.hasFirst m heap mem attrs = true) : o.has m heap mem attrs = true := by
  rw [Persistent.hasFirst, List.all_eq_true] at found
  rw [Persistent.has, List.all_eq_true]
  intro x among
  have here := found x among
  unfold firstMatches at here
  split at here
  · cases here
  · next y first => exact List.any_eq_true.2 ⟨y, List.mem_of_find?_eq_some first, here⟩

def limit (maxObjCnt : Nat) : Nat := max maxObjCnt 1

def handles (found : List Persistent) : List Byte := found.flatMap Persistent.id

theorem storeStore (out : Memory) (a : Nat) (first second : List Byte) :
    store (store out a first) (a + first.length) second = store out a (first ++ second) := by
  funext i
  unfold store
  by_cases before : a ≤ i
  · by_cases inFirst : i - a < first.length
    · have ahead : ¬ a + first.length ≤ i := by omega
      rw [if_neg ahead, if_pos before, if_pos before, List.getD_eq_getElem _ _ inFirst, List.getD_append _ _ _ _ inFirst,
        List.getD_eq_getElem _ _ inFirst]
    · have behind : a + first.length ≤ i := by omega
      have place : i - a - first.length = i - (a + first.length) := by omega
      have past : first.getD (i - a) (out i) = out i := List.getD_eq_default _ _ (by omega)
      rw [if_pos behind, if_pos before, if_pos before, past, List.getD_append_right _ _ _ _ (by omega), place]
  · have ahead : ¬ a + first.length ≤ i := by omega
    rw [if_neg ahead, if_neg before, if_neg before]

structure Decides (matching : List Byte → Nat → Result Bool) (good : Persistent → Bool) (o : Persistent) : Prop where
  found : ∀ objId : List Byte, objId.take 4 = o.id → ∀ b, matching objId o.dataSize = .ok b → b = good o
  opened : ∀ objId : List Byte, objId.take 4 = o.id → matching objId o.dataSize ≠ .error (.status .itemNotFound)

theorem enumerated (skipping : ∀ o ∈ objects, skips o.id.length = !o.isClient)
    (answers : ∀ o ∈ objects, o.isClient = true → Decides matching good o)
    (done : enumerate skips matching maxObjCnt objects objId out cnt = .ok (out', cnt')) (room : cnt < limit maxObjCnt) :
    let found := (objects.filter fun o => o.isClient && good o).take (limit maxObjCnt - cnt)
    out' = store out (4 * cnt) (handles found) ∧ cnt' = cnt + found.length := by
  induction objects generalizing objId out cnt with
  | nil =>
    cases done
    rw [List.filter_nil, List.take_nil]
    exact ⟨(storeNone _ _).symm, rfl⟩
  | cons o rest later =>
    have skippingRest := fun o among => skipping o (List.mem_cons_of_mem _ among)
    have answersRest := fun o among => answers o (List.mem_cons_of_mem _ among)
    rw [enumerate] at done
    dsimp only at done
    rw [skipping o List.mem_cons_self] at done
    cases client : o.isClient with
    | false =>
      rw [client] at done
      have without : (o :: rest).filter (fun o => o.isClient && good o) = rest.filter fun o => o.isClient && good o :=
        List.filter_cons_of_neg (by simp [client])
      rw [without]
      exact later skippingRest answersRest done room
    | true =>
      rw [client] at done
      have four : o.id.length = 4 := of_decide_eq_true client
      have taken : (o.id ++ objId.drop o.id.length).take 4 = o.id := by rw [← four, List.take_left]
      obtain ⟨found, opened⟩ := answers o List.mem_cons_self client
      simp only [Bool.not_true, Bool.false_eq_true, if_false] at done
      cases answer : matching (o.id ++ objId.drop o.id.length) o.dataSize with
      | error failure =>
        rw [answer] at done
        cases failure with
        | fault => cases done
        | status code =>
          cases code with
          | itemNotFound => exact absurd answer (opened _ taken)
          | _ => cases done
      | ok b =>
        rw [answer] at done
        have right := found _ taken b answer
        cases b with
        | false =>
          have without : (o :: rest).filter (fun o => o.isClient && good o) = rest.filter fun o => o.isClient && good o :=
            List.filter_cons_of_neg (by simp [← right])
          rw [without]
          exact later skippingRest answersRest done room
        | true =>
          have kept : (o :: rest).filter (fun o => o.isClient && good o) =
              o :: rest.filter fun o => o.isClient && good o := List.filter_cons_of_pos (by simp [client, ← right])
          obtain ⟨more, less⟩ : ∃ n, limit maxObjCnt - cnt = n + 1 := ⟨limit maxObjCnt - cnt - 1, by omega⟩
          rw [kept, less, List.take_succ_cons]
          simp only [taken] at done
          split at done
          · next full =>
            cases done
            have none : more = 0 := by
              unfold limit at room less
              omega
            rw [none, List.take_zero]
            exact ⟨by rw [handles, List.flatMap_singleton], rfl⟩
          · next free =>
            have room' : cnt + 1 < limit maxObjCnt := by
              unfold limit at room less ⊢
              omega
            have again := later skippingRest answersRest done room'
            have left : limit maxObjCnt - (cnt + 1) = more := by omega
            dsimp only at again
            rw [left] at again
            obtain ⟨stored, counted⟩ := again
            refine ⟨?_, by rw [counted, List.length_cons]; omega⟩
            have next : 4 * (cnt + 1) = 4 * cnt + o.id.length := by omega
            rw [stored, next, storeStore]
            rfl

end Walk

section Found

variable {m : Machine} {storage : Storage} {heap : List Byte → Nat} {mem out out' : Memory} {attrs : List Attribute}
  {buf blen size cnt : Nat} {o : Persistent}

theorem Storage.opens (storage : Storage) (among : o ∈ storage.objects) :
    openPersistentObject storage.objects o.id = .ok o := by
  obtain ⟨before, behind, whole⟩ := List.append_of_mem among
  have distinct := storage.distinct
  rw [whole, List.map_append, List.map_cons] at distinct
  have apart := List.nodup_append.1 distinct
  have first : storage.objects.find? (fun o' => o'.id = o.id) = some o := by
    rw [List.find?_eq_some_iff_append]
    refine ⟨decide_eq_true rfl, before, behind, whole, fun o' inside => ?_⟩
    have other : o'.id ≠ o.id := apart.2.2 _ (List.mem_map_of_mem inside) _ List.mem_cons_self
    simp [other]
  rw [openPersistentObject, first]

theorem Storage.client (storage : Storage) (among : o ∈ storage.objects) :
    o.id.length = 4 ∧ o.isClient = true ∨ o.id.length = 7 ∧ o.isClient = false := by
  rcases storage.ids o among with four | database
  · exact Or.inl ⟨four, decide_eq_true four⟩
  · have seven : o.id.length = 7 := by rw [database]; rfl
    exact Or.inr ⟨seven, decide_eq_false (by omega)⟩

theorem matchAttrObjDecides (storage : Storage) (among : o ∈ storage.objects) (some : attrs ≠ []) :
    Decides (matchAttrObj m storage.objects heap mem attrs) (Persistent.hasFirst m heap mem attrs) o := by
  constructor
  · intro objId taken b done
    unfold matchAttrObj at done
    rw [taken, storage.opens among] at done
    obtain ⟨object, opened, done⟩ := bindOk.1 done
    cases opened
    split at done
    · cases done
    · dsimp only at done
      rw [Nat.min_self] at done
      obtain ⟨objAttrs, unpacked, done⟩ := bindOk.1 done
      rw [matchLoopStarts some] at done
      have held : o.held m heap = objAttrs := by rw [Persistent.held, Persistent.memory, unpacked]
      rw [Persistent.hasFirst, held]
      exact matchLoopFound done
  · intro objId taken failed
    unfold matchAttrObj at failed
    rw [taken, storage.opens among] at failed
    rcases bindError.1 failed with failed | ⟨object, -, failed⟩
    · cases failed
    · split at failed
      · cases failed
      · rcases bindError.1 failed with failed | ⟨objAttrs, -, failed⟩
        · exact unpackSkAttrsStatus failed
        · exact matchLoopStatus _ _ _ failed

def Storage.wanted (storage : Storage) (m : Machine) (heap : List Byte → Nat) (mem : Memory) (attrs : List Attribute) :
    List Persistent := storage.objects.filter fun o => o.isClient && o.has m heap mem attrs

def Storage.taken (storage : Storage) (m : Machine) (heap : List Byte → Nat) (mem : Memory) (attrs : List Attribute) :
    List Persistent := storage.objects.filter fun o => o.isClient && o.hasFirst m heap mem attrs

theorem searchRuns (template : unpackSkAttrs m mem buf blen = .ok attrs)
    (done : taFindObjects m storage.objects heap mem buf blen out size = .ok (out', cnt)) :
    let found := (storage.taken m heap mem attrs).take (limit (wrap 32 (size / 4)))
    out' = store out 0 (handles found) ∧ cnt = found.length := by
  have start : 0 < limit (wrap 32 (size / 4)) := Nat.lt_of_lt_of_le Nat.zero_lt_one (Nat.le_max_right _ _)
  unfold taFindObjects at done
  rw [template] at done
  change (if attrs = [] then _ else _) = _ at done
  have skipped {skips : Nat → Bool} (four : skips 4 = false) (seven : skips 7 = true) :
      ∀ o ∈ storage.objects, skips o.id.length = !o.isClient := by
    intro o among
    rcases storage.client among with ⟨length, client⟩ | ⟨length, client⟩
    · rw [length, client, four]
      rfl
    · rw [length, client, seven]
      rfl
  by_cases none : attrs = []
  · rw [if_pos none] at done
    obtain ⟨-, -, done⟩ := bindOk.1 done
    have decides : ∀ o ∈ storage.objects, o.isClient = true →
        Decides (fun _ _ => .ok true) (Persistent.hasFirst m heap mem attrs) o := by
      intro o _ _
      subst none
      exact ⟨fun _ _ _ same => (Except.ok.inj same).symm, fun _ _ => nofun⟩
    have walked := enumerated (skipped (by decide) (by decide)) decides done start
    simpa only [Storage.taken, Nat.mul_zero, Nat.sub_zero, Nat.zero_add] using walked
  · rw [if_neg none] at done
    obtain ⟨-, -, done⟩ := bindOk.1 done
    have walked := enumerated (skipped (by decide) (by decide))
      (fun o among _ => matchAttrObjDecides storage among none) done start
    simpa only [Storage.taken, Nat.mul_zero, Nat.sub_zero, Nat.zero_add] using walked

theorem takenWanted : storage.taken m heap mem attrs =
    (storage.wanted m heap mem attrs).filter (Persistent.hasFirst m heap mem attrs) := by
  rw [Storage.wanted, List.filter_filter, Storage.taken]
  refine List.filter_congr fun o _ => ?_
  cases first : o.hasFirst m heap mem attrs with
  | true => rw [firstHas first]; simp
  | false => simp

theorem takeFilter {α : Type} {p : α → Bool} {l : List α} {n : Nat} (good : ∀ x ∈ l.take n, p x = true) :
    (l.filter p).take n = l.take n := by
  induction l generalizing n with
  | nil => rfl
  | cons x rest later =>
    cases n with
    | zero => rfl
    | succ n =>
      rw [List.take_succ_cons] at good ⊢
      rw [List.filter_cons_of_pos (good x List.mem_cons_self), List.take_succ_cons,
        later fun y among => good y (List.mem_cons_of_mem _ among)]

theorem takeSame {α : Type} {p : α → Bool} {l : List α} {n k : Nat} : (l.filter p).take k = l.take n ↔
    (∀ x ∈ l.take n, p x = true) ∧ (k = n ∨ (l.filter p).length ≤ min n k) := by
  constructor
  · intro same
    have good : ∀ x ∈ l.take n, p x = true := by
      intro x among
      rw [← same] at among
      exact (List.mem_filter.1 (List.mem_of_mem_take among)).2
    refine ⟨good, ?_⟩
    have lengths := congrArg List.length (same.trans (takeFilter good).symm)
    rw [List.length_take, List.length_take] at lengths
    omega
  · rintro ⟨good, rfl | short⟩
    · exact takeFilter good
    · rw [← takeFilter good, List.take_of_length_le (by omega), List.take_of_length_le (by omega)]

theorem handlesLength {found : List Persistent} (clients : ∀ o ∈ found, o.id.length = 4) :
    (handles found).length = 4 * found.length := by
  induction found with
  | nil => rfl
  | cons o rest later =>
    have here := clients o List.mem_cons_self
    have behind := later fun o' among => clients o' (List.mem_cons_of_mem _ among)
    change (o.id ++ handles rest).length = _
    rw [List.length_append, here, behind, List.length_cons]
    omega

theorem handlesInj {found found' : List Persistent} (clients : ∀ o ∈ found, o ∈ storage.objects ∧ o.id.length = 4)
    (clients' : ∀ o ∈ found', o ∈ storage.objects ∧ o.id.length = 4) (same : handles found = handles found') :
    found = found' := by
  induction found generalizing found' with
  | nil =>
    cases found' with
    | nil => rfl
    | cons o' rest' =>
      have lengths := congrArg List.length same
      rw [handlesLength fun o among => (clients' o among).2] at lengths
      simp [handles] at lengths
  | cons o rest later =>
    cases found' with
    | nil =>
      have lengths := congrArg List.length same
      rw [handlesLength fun o among => (clients o among).2] at lengths
      simp [handles] at lengths
    | cons o' rest' =>
      have here := clients o List.mem_cons_self
      have here' := clients' o' List.mem_cons_self
      obtain ⟨ids, behind⟩ := List.append_inj same (here.2.trans here'.2.symm)
      have one : o = o' := List.inj_on_of_nodup_map storage.distinct here.1 here'.1 ids
      rw [one, later (fun x among => clients x (List.mem_cons_of_mem _ among))
        (fun x among => clients' x (List.mem_cons_of_mem _ among)) behind]

theorem storeInj {a : Nat} {first second : List Byte} (long : first.length = second.length)
    (same : store out a first = store out a second) : first = second := by
  have loaded := congrArg (fun memory => load memory a first.length) same
  rw [loadStored, long, loadStored] at loaded
  exact loaded

structure Exactly (storage : Storage) (m : Machine) (heap : List Byte → Nat) (mem : Memory) (attrs : List Attribute)
    (out out' : Memory) (size cnt : Nat) : Prop where
  handles : out' = store out 0 (handles ((storage.wanted m heap mem attrs).take (size / 4)))
  count : cnt = min (size / 4) (storage.wanted m heap mem attrs).length
  beyond : ∀ i, 4 * (size / 4) ≤ i → out' i = out i

structure Searchable (storage : Storage) (m : Machine) (heap : List Byte → Nat) (mem : Memory) (attrs : List Attribute)
    (size : Nat) : Prop where
  first : ∀ o ∈ (storage.wanted m heap mem attrs).take (size / 4), o.hasFirst m heap mem attrs = true
  room : limit (wrap 32 (size / 4)) = size / 4 ∨
    (storage.taken m heap mem attrs).length ≤ min (size / 4) (limit (wrap 32 (size / 4)))

theorem exactlyIff (template : unpackSkAttrs m mem buf blen = .ok attrs)
    (done : taFindObjects m storage.objects heap mem buf blen out size = .ok (out', cnt)) :
    Exactly storage m heap mem attrs out out' size cnt ↔ Searchable storage m heap mem attrs size := by
  obtain ⟨stored, counted⟩ := searchRuns template done
  have wantedClients : ∀ o ∈ (storage.wanted m heap mem attrs).take (size / 4),
      o ∈ storage.objects ∧ o.id.length = 4 := by
    intro o among
    obtain ⟨member, is⟩ := List.mem_filter.1 (List.mem_of_mem_take among)
    rw [Bool.and_eq_true] at is
    exact ⟨member, of_decide_eq_true is.1⟩
  have takenClients : ∀ o ∈ (storage.taken m heap mem attrs).take (limit (wrap 32 (size / 4))),
      o ∈ storage.objects ∧ o.id.length = 4 := by
    intro o among
    obtain ⟨member, is⟩ := List.mem_filter.1 (List.mem_of_mem_take among)
    rw [Bool.and_eq_true] at is
    exact ⟨member, of_decide_eq_true is.1⟩
  constructor
  · intro exactly
    have lengths : ((storage.taken m heap mem attrs).take (limit (wrap 32 (size / 4)))).length =
        ((storage.wanted m heap mem attrs).take (size / 4)).length := by
      rw [← counted, exactly.count, List.length_take]
    have bytes := storeInj
      (by rw [handlesLength fun o among => (takenClients o among).2, handlesLength fun o among => (wantedClients o among).2,
        lengths]) (stored.symm.trans exactly.handles)
    have same := handlesInj takenClients wantedClients bytes
    rw [takenWanted, takeSame, ← takenWanted] at same
    exact ⟨same.1, same.2⟩
  · intro searchable
    have same : (storage.taken m heap mem attrs).take (limit (wrap 32 (size / 4))) =
        (storage.wanted m heap mem attrs).take (size / 4) := by
      rw [takenWanted, takeSame, ← takenWanted]
      exact ⟨searchable.first, searchable.room⟩
    rw [same] at stored counted
    refine ⟨stored, by rw [counted, List.length_take], fun i behind => ?_⟩
    rw [stored]
    refine storeOutside (Or.inr ?_)
    rw [handlesLength fun o among => (wantedClients o among).2, List.length_take]
    omega

theorem extendedTaken {mem' : Memory} {attrs' : List Attribute}
    (covers : ∀ x ∈ attrs, ∃ x' ∈ attrs', x.view mem = x'.view mem') :
    List.Sublist (storage.taken m heap mem' attrs') (storage.taken m heap mem attrs) := by
  refine List.monotone_filter_right _ fun o found => ?_
  rw [Bool.and_eq_true] at found ⊢
  refine ⟨found.1, ?_⟩
  have all := found.2
  rw [Persistent.hasFirst, List.all_eq_true] at all ⊢
  intro x among
  obtain ⟨x', among', same⟩ := covers x among
  have types : x.type = x'.type := congrArg Prod.fst same
  have there := all x' among'
  unfold firstMatches at there ⊢
  rw [types, same]
  exact there

def Unbounded (storage : Storage) (size : Nat) : Prop := storage.objects.length ≤ limit (wrap 32 (size / 4))

theorem unboundedRuns (unbounded : Unbounded storage size) (template : unpackSkAttrs m mem buf blen = .ok attrs)
    (done : taFindObjects m storage.objects heap mem buf blen out size = .ok (out', cnt)) :
    out' = store out 0 (handles (storage.taken m heap mem attrs)) ∧ cnt = (storage.taken m heap mem attrs).length := by
  have few : (storage.taken m heap mem attrs).length ≤ limit (wrap 32 (size / 4)) :=
    (List.length_filter_le _ _).trans unbounded
  have runs := searchRuns template done
  rw [List.take_of_length_le few] at runs
  exact runs

theorem heldWritten {source : Memory} {objAttrs : List Attribute} (kept : Kept source objAttrs o.data o.dataSize)
    (aligned : heap o.id % 4 = 0) (high : heap o.id + o.dataSize < 2 ^ m.bits) : 4 ≤ o.dataSize ∧
    ∃ objs, unpackSkAttrs m (o.memory heap) (heap o.id) o.dataSize = .ok objs ∧ o.held m heap = objs ∧
      Valued objs ∧ List.Forall₂ (SameValue (o.memory heap) source) objs (objAttrs.filter keeps) := by
  obtain ⟨long, objs, unpacked, same⟩ := @Kept.unpacked m o.data source objAttrs o.dataSize (heap o.id) kept aligned high
  have held : o.held m heap = objs := by
    rw [Persistent.held, Persistent.memory, unpacked]
  refine ⟨long, objs, unpacked, held, ?_, same⟩
  intro y among zero
  obtain ⟨i, small, rfl⟩ := List.getElem_of_mem among
  have pair := List.forall₂_iff_get.1 same
  exact (pair.2 i small (pair.1 ▸ small)).null zero

theorem matchLoopValued {data : Memory} {objAttrs : List Attribute} (valued : Valued attrs) (valued' : Valued objAttrs)
    (found : Bool) : ∃ b, matchLoop mem data objAttrs attrs found = .ok b := by
  induction attrs generalizing found with
  | nil => exact ⟨found, rfl⟩
  | cons x rest later =>
    have valuedRest : Valued rest := fun x among => valued x (List.mem_cons_of_mem _ among)
    rw [matchLoop]
    cases first : taGetSkAttr x.type objAttrs with
    | none => exact ⟨false, rfl⟩
    | some y =>
      have ran : ∃ b, taCompareSkAttr mem data x y = .ok b := by
        unfold taCompareSkAttr
        split
        · exact ⟨_, rfl⟩
        · split
          · exact ⟨_, rfl⟩
          · next lengths =>
            have sameLength : x.valueLen = y.valueLen := not_not.1 lengths
            have full : ¬(x.valueLen ≠ 0 ∧ (x.value = 0 ∨ y.value = 0)) := by
              rintro ⟨some, null | null⟩
              · exact some (valued x List.mem_cons_self null)
              · exact some (sameLength.trans (valued' y (List.mem_of_find?_eq_some first) null))
            rw [if_neg full]
            exact ⟨_, rfl⟩
      obtain ⟨b, compare⟩ := ran
      cases b with
      | true =>
        obtain ⟨b, run⟩ := later valuedRest true
        exact ⟨b, bindOk.2 ⟨true, compare, run⟩⟩
      | false => exact ⟨false, bindOk.2 ⟨false, compare, rfl⟩⟩

def Written (m : Machine) (heap : List Byte → Nat) (o : Persistent) : Prop :=
  heap o.id % 4 = 0 ∧ heap o.id + o.dataSize < 2 ^ m.bits ∧
    ∃ source objAttrs, Kept source objAttrs o.data o.dataSize

theorem matchAttrObjRuns (storage : Storage) (among : o ∈ storage.objects) (written : Written m heap o)
    (valued : Valued attrs) (objId : List Byte) (taken : objId.take 4 = o.id) :
    ∃ b, matchAttrObj m storage.objects heap mem attrs objId o.dataSize = .ok b := by
  obtain ⟨aligned, high, source, objAttrs, kept⟩ := written
  obtain ⟨long, objs, unpacked, -, held, -⟩ := heldWritten kept aligned high
  obtain ⟨b, run⟩ := @matchLoopValued mem attrs (o.memory heap) objs valued held false
  refine ⟨b, ?_⟩
  unfold matchAttrObj
  rw [taken, storage.opens among]
  refine bindOk.2 ⟨o, rfl, ?_⟩
  rw [if_neg (Nat.not_lt.2 long)]
  refine bindOk.2 ⟨objs, ?_, run⟩
  rw [Nat.min_self]
  exact unpacked

theorem enumerateRuns {skips : Nat → Bool} {matching : List Byte → Nat → Result Bool} {maxObjCnt : Nat}
    {objects : List Persistent} (four : ∀ o ∈ objects, skips o.id.length = false → o.id.length = 4)
    (runs : ∀ o ∈ objects, ∀ objId : List Byte, objId.take 4 = o.id → ∃ b, matching objId o.dataSize = .ok b)
    (objId : List Byte) (out : Memory) (cnt : Nat) :
    ∃ r, enumerate skips matching maxObjCnt objects objId out cnt = .ok r := by
  induction objects generalizing objId out cnt with
  | nil => exact ⟨_, rfl⟩
  | cons o rest later =>
    have again := later (fun o among => four o (List.mem_cons_of_mem _ among))
      fun o among => runs o (List.mem_cons_of_mem _ among)
    rw [enumerate]
    dsimp only
    cases skip : skips o.id.length with
    | true => exact again _ _ _
    | false =>
      have taken : (o.id ++ objId.drop o.id.length).take 4 = o.id := by
        rw [← four o List.mem_cons_self skip, List.take_left]
      obtain ⟨b, answer⟩ := runs o List.mem_cons_self _ taken
      rw [answer]
      cases b with
      | false => exact again _ _ _
      | true =>
        simp only [Bool.false_eq_true, if_false]
        split
        · exact ⟨_, rfl⟩
        · exact again _ _ _

theorem searchSucceeds (some : storage.objects ≠ [])
    (written : ∀ o ∈ storage.objects, o.isClient = true → Written m heap o)
    (template : unpackSkAttrs m mem buf blen = .ok attrs) (valued : Valued attrs) (out : Memory) (size : Nat) :
    ∃ r, taFindObjects m storage.objects heap mem buf blen out size = .ok r := by
  have started : startEnumerator storage.objects = .ok () := if_neg some
  have lengths {skips : Nat → Bool} (seven : skips 7 = true) :
      ∀ o ∈ storage.objects, skips o.id.length = false → o.id.length = 4 := by
    intro o among taken
    rcases storage.client among with ⟨length, -⟩ | ⟨length, -⟩
    · exact length
    · rw [length, seven] at taken
      cases taken
  unfold taFindObjects
  rw [template]
  change ∃ r, (if attrs = [] then _ else _) = _
  by_cases none : attrs = []
  · obtain ⟨r, walked⟩ := @enumerateRuns (fun objIdLen => objIdLen ≠ 4) (fun _ _ => .ok true) (wrap 32 (size / 4))
      storage.objects (@lengths (fun objIdLen => objIdLen ≠ 4) (by decide)) (fun _ _ _ _ => ⟨true, rfl⟩)
      (List.replicate teeObjectIdMaxLen 0) out 0
    rw [if_pos none]
    exact ⟨r, bindOk.2 ⟨(), started, walked⟩⟩
  · have runs : ∀ o ∈ storage.objects, ∀ objId : List Byte, objId.take 4 = o.id →
        ∃ b, matchAttrObj m storage.objects heap mem attrs objId o.dataSize = .ok b := by
      intro o among objId taken
      have four : o.id.length ≤ 4 := by
        rw [← taken]
        exact List.length_take_le _ _
      rcases storage.client among with ⟨-, client⟩ | ⟨length, -⟩
      · exact matchAttrObjRuns storage among (written o among client) valued objId taken
      · omega
    obtain ⟨r, walked⟩ := @enumerateRuns (fun objIdLen => objIdLen = getObjDbIdSize)
      (matchAttrObj m storage.objects heap mem attrs) (wrap 32 (size / 4)) storage.objects
      (@lengths (fun objIdLen => objIdLen = getObjDbIdSize) (by decide)) runs (List.replicate teeObjectIdMaxLen 0) out 0
    rw [if_neg none]
    exact ⟨r, bindOk.2 ⟨(), started, walked⟩⟩

structure Searches (storage : Storage) (m : Machine) (heap : List Byte → Nat) : Prop where
  exactly : ∀ mem buf blen attrs out size out' cnt, unpackSkAttrs m mem buf blen = .ok attrs →
    taFindObjects m storage.objects heap mem buf blen out size = .ok (out', cnt) →
      (Exactly storage m heap mem attrs out out' size cnt ↔ Searchable storage m heap mem attrs size)
  extended : ∀ mem buf blen attrs out size out' cnt, unpackSkAttrs m mem buf blen = .ok attrs →
    taFindObjects m storage.objects heap mem buf blen out size = .ok (out', cnt) → Unbounded storage size →
      ∀ mem' buf' blen' attrs' size' out'' cnt', unpackSkAttrs m mem' buf' blen' = .ok attrs' →
        (∀ x ∈ attrs, ∃ x' ∈ attrs', x.view mem = x'.view mem') →
        taFindObjects m storage.objects heap mem' buf' blen' out size' = .ok (out'', cnt') → Unbounded storage size' →
          ∃ found found', List.Sublist found' found ∧ out' = store out 0 (handles found) ∧ cnt = found.length ∧
            out'' = store out 0 (handles found') ∧ cnt' = found'.length
  succeeds : storage.objects ≠ [] → (∀ o ∈ storage.objects, o.isClient = true → Written m heap o) →
    ∀ mem buf blen attrs, unpackSkAttrs m mem buf blen = .ok attrs → Valued attrs →
      ∀ out size, ∃ r, taFindObjects m storage.objects heap mem buf blen out size = .ok r

theorem objectsFound (storage : Storage) (m : Machine) (heap : List Byte → Nat) : Searches storage m heap where
  exactly _ _ _ _ _ _ _ _ template done := exactlyIff template done
  extended _ _ _ _ _ _ _ _ template done unbounded _ _ _ _ _ _ _ template' covers done' unbounded' := by
    obtain ⟨stored, counted⟩ := unboundedRuns unbounded template done
    obtain ⟨stored', counted'⟩ := unboundedRuns unbounded' template' done'
    exact ⟨_, _, extendedTaken covers, stored, counted, stored', counted'⟩
  succeeds some written _ _ _ _ template valued out size := searchSucceeds some written template valued out size

def twoLabels : Memory :=
  store (fun _ => 0) 0 (([2, skAttrObjectLabel, 28, 4, skAttrObjectLabel, 32, 4, 0x11111111, 0x22222222] :
    List (BitVec 32)).flatMap wordBytes)

def labelled : Storage where
  objects := [⟨[1, 0, 0, 0], twoLabels, 36⟩, ⟨dbObjId, fun _ => 0, 4⟩]
  ids := by decide
  distinct := by decide

def secondLabel : Memory :=
  store (fun _ => 0) 0x10000 (([1, skAttrObjectLabel, 16, 4, 0x22222222] : List (BitVec 32)).flatMap wordBytes)

theorem searchMissed :
    (∃ out', taFindObjects .wide labelled.objects (fun _ => 0x20000) (fun _ => 0) 0 0 (fun _ => 0xff) 3 = .ok (out', 1) ∧
      ¬Exactly labelled .wide (fun _ => 0x20000) (fun _ => 0) [] (fun _ => 0xff) out' 3 1) ∧
    ∃ attrs out', unpackSkAttrs .wide secondLabel 0x10000 20 = .ok attrs ∧
      taFindObjects .wide labelled.objects (fun _ => 0x20000) secondLabel 0x10000 20 (fun _ => 0xff) 4 = .ok (out', 0) ∧
      ¬Exactly labelled .wide (fun _ => 0x20000) secondLabel attrs (fun _ => 0xff) out' 4 0 := by
  refine ⟨⟨_, rfl, fun exactly => ?_⟩, [⟨skAttrObjectLabel, 0x10010, 4⟩], fun _ => 0xff, ?_, ?_, fun exactly => ?_⟩
  · have count : 1 = min (3 / 4) _ := exactly.count
    simp at count
  · decide
  · rfl
  · have count := exactly.count
    revert count
    decide

end Found

end Flexbuild.SecureObjects
