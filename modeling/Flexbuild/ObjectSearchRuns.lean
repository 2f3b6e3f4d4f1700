import Flexbuild.ObjectSearch
import Mathlib.Data.List.Nodup

/-! Runs of searches in any number of sessions. As long as a session searches once and no more
objects match than a list has cells, every search hands out what it has selected, in the order
of the objects, and every access goes to a cell of a list that is allocated. -/
namespace Flexbuild.ObjectSearch
open ByteMemory (Byte)

structure Searched (w : World) : Prop where
  handed : ∀ h g, w.searches h = some g → g.returned <+: g.selected.take maxFindListObjects
  once : ∀ h g, w.searches h = some g → g.returned.Nodup
  complete : ∀ h g, w.searches h = some g → g.exhausted = true → g.returned = g.selected.take maxFindListObjects
  next : ∀ h g limit, w.searches h = some g → w.library.initialized = true →
    (findObjects w.library h true limit).1 = .ok ∧ (findObjects w.library h true limit).2.1 =
      ((g.selected.take maxFindListObjects).drop g.returned.length).take limit
  inside : ∀ a ∈ w.library.heap.accesses, a.index < maxFindListObjects
  live : ∀ a ∈ w.library.heap.accesses, a.allocated = true

def searchedObjects (l : Library) (s : Session) (a : Answers) : ObjectList :=
  if (l.objects s.slotId).objects = [] then a.fetched else l.objects s.slotId

def selectedHandles (template : List Attribute) (objects : List Object) : List Nat :=
  (objects.filter (selects template)).map Object.handle

-- A call for this session that passes every check and gets its memory, so that it begins a search.
def Starts (l : Library) (s : Session) (template : Option (List Attribute)) (a : Answers) : Prop :=
  l.initialized = true ∧ template.isSome = true ∧ s.opActive = false ∧ s.slotId < slotCount ∧
    ((l.objects s.slotId).objects = [] → a.fetchRv = .ok) ∧ (s.findList = 0 → a.memory.isSome = true)

instance (l : Library) (s : Session) (template : Option (List Attribute)) (a : Answers) :
    Decidable (Starts l s template a) := inferInstanceAs (Decidable (_ ∧ _ ∧ _ ∧ _ ∧ (_ → _) ∧ (_ → _)))

def KeepsList (w : World) : Call → Prop
  | .init hSession template a => ∀ s ∈ w.library.sessions hSession, Starts w.library s template a →
      s.findList = 0 ∧ (selectedHandles (template.getD []) (searchedObjects w.library s a).objects).length ≤ maxFindListObjects
  | _ => True

instance (w : World) : (c : Call) → Decidable (KeepsList w c)
  | .init hSession template a =>
    match found : w.library.sessions hSession with
    | none => isTrue fun s member => by rw [found] at member; cases member
    | some s => decidable_of_iff (Starts w.library s template a → s.findList = 0 ∧
        (selectedHandles (template.getD []) (searchedObjects w.library s a).objects).length ≤ maxFindListObjects)
        ⟨fun keeps _ member => by
          rw [found] at member
          cases member
          exact keeps, fun keeps => keeps s found⟩
  | .find _ _ _ => isTrue trivial
  | .final _ => isTrue trivial

variable {template : Option (List Attribute)}

theorem startsExactly {l : Library} {h : Nat} {a : Answers} :
    (findObjectsInit l h template a).1 = .ok ↔ ∃ s ∈ l.sessions h, Starts l s template a := by
  unfold findObjectsInit Starts
  by_cases on : l.initialized = true
  · cases template with
    | none => simp [on]
    | some t =>
      cases l.sessions h with
      | none => simp [on]
      | some s =>
        by_cases active : s.opActive = true
        · simp [on, active]
        by_cases slot : slotCount ≤ s.slotId
        · simp [on, active, slot, Nat.not_lt.mpr slot]
        by_cases empty : (l.objects s.slotId).objects = [] <;> by_cases unused : s.findList = 0 <;>
          by_cases fetched : a.fetchRv = .ok <;> cases a.memory <;>
          simp [on, active, slot, Nat.not_le.mp slot, empty, unused, fetched]
  · simp [on]

def Along : World → List Call → Prop
  | _, [] => True
  | w, c :: cs => KeepsList w c ∧ match step w c with
    | none => True
    | some w' => Along w' cs

instance decideAlong : (w : World) → (cs : List Call) → Decidable (Along w cs)
  | _, [] => isTrue trivial
  | w, c :: cs => by
    unfold Along
    cases step w c with
    | none => exact @instDecidableAnd _ _ inferInstance (isTrue trivial)
    | some w' => exact @instDecidableAnd _ _ inferInstance (decideAlong w' cs)

section heap
variable {h h' : Heap} {b c i n : Nat} {handles : List Nat}

structure Filled (b i : Nat) (handles : List Nat) (h h' : Heap) : Prop where
  allocated : h'.allocated = h.allocated
  cells : ∀ k (inside : k < handles.length), h'.cells b (i + k) = handles[k]
  before : ∀ j < i, h'.cells b j = h.cells b j
  others : ∀ c, c ≠ b → h'.cells c = h.cells c
  accesses : ∀ a ∈ h'.accesses, a ∈ h.accesses ∨ a.index < maxFindListObjects ∧ a.allocated = h.allocated b

theorem filledNone : Filled b i [] h h where
  allocated := rfl
  cells := fun _ inside => absurd inside (Nat.not_lt_zero _)
  before := fun _ _ => rfl
  others := fun _ _ => rfl
  accesses := fun _ member => .inl member

theorem Filled.cons {handle : Nat} (room : i < maxFindListObjects)
    (rest : Filled b (i + 1) handles (h.write b i handle) h') : Filled b i (handle :: handles) h h' where
  allocated := rest.allocated
  cells := fun k inside => by
    cases k with
    | zero =>
      rw [Nat.add_zero, rest.before i (Nat.lt_succ_self i)]
      simp [Heap.write]
    | succ k =>
      rw [show i + (k + 1) = i + 1 + k by omega]
      exact rest.cells k (Nat.lt_of_succ_lt_succ inside)
  before := fun j less => by
    rw [rest.before j (by omega)]
    simp [Heap.write, Function.update_of_ne (show j ≠ i by omega)]
  others := fun c other => by
    rw [rest.others c other]
    simp [Heap.write, Function.update_of_ne other]
  accesses := fun a member => by
    obtain before | now := rest.accesses a member
    · obtain old | new := List.mem_append.mp before
      · exact .inl old
      · cases List.mem_singleton.mp new
        exact .inr ⟨room, rfl⟩
    · exact .inr now

theorem selectedTaken {template : List Attribute} {o : Object} {rest : List Object} (chosen : selects template o = true) :
    selectedHandles template (o :: rest) = o.handle :: selectedHandles template rest := by
  rw [selectedHandles, List.filter_cons_of_pos chosen, List.map_cons, selectedHandles]

theorem selectedSkipped {template : List Attribute} {o : Object} {rest : List Object} (chosen : ¬ selects template o = true) :
    selectedHandles template (o :: rest) = selectedHandles template rest := by
  rw [selectedHandles, List.filter_cons_of_neg chosen, selectedHandles]

theorem findMatchingFilled {template : List Attribute} {objects : List Object}
    (room : i + (selectedHandles template objects).length ≤ maxFindListObjects) :
    (findMatchingObjects b template objects i h).1 = i + (selectedHandles template objects).length ∧
      Filled b i (selectedHandles template objects) h (findMatchingObjects b template objects i h).2 := by
  induction objects generalizing i h with
  | nil => exact ⟨rfl, filledNone⟩
  | cons o rest ih =>
    rw [findMatchingObjects]
    by_cases chosen : selects template o = true
    · rw [selectedTaken chosen] at room ⊢
      rw [List.length_cons] at room ⊢
      rw [if_pos chosen, if_neg (by omega)]
      obtain ⟨count, filled⟩ := @ih (h.write b i o.handle) (i + 1) (by omega)
      exact ⟨count.trans (by omega), filled.cons (by omega)⟩
    · rw [selectedSkipped chosen] at room ⊢
      rw [if_neg chosen]
      exact ih room

end heap

structure Active (heap : Heap) (s : Session) (g : Search) : Prop where
  active : s.opActive = true
  list : s.findList ≠ 0
  allocated : heap.allocated s.findList = true
  count : s.findCount = g.selected.length
  room : g.selected.length ≤ maxFindListObjects
  index : s.findIdx = g.returned.length
  handed : g.returned <+: g.selected
  cells : ∀ k (inside : k < g.selected.length), heap.cells s.findList k = g.selected[k]
  distinct : g.selected.Nodup
  exhausted : g.exhausted = true → g.returned = g.selected

structure Kept (w : World) : Prop where
  known : ∀ h g, w.searches h = some g → ∃ s, w.library.sessions h = some s ∧ Active w.library.heap s g
  idle : ∀ h s, w.library.sessions h = some s → w.searches h = none → s.opActive = false
  apart : ∀ h h' s s', h ≠ h' → w.library.sessions h = some s → w.library.sessions h' = some s' →
    s.opActive = true → s'.opActive = true → s.findList ≠ s'.findList
  inside : ∀ a ∈ w.library.heap.accesses, a.index < maxFindListObjects
  live : ∀ a ∈ w.library.heap.accesses, a.allocated = true

section find
variable {l : Library} {s : Session} {g : Search} {h limit : Nat} {pointers : Bool}

theorem finalRefused (idle : ¬ (l.initialized = true ∧ ∃ s, l.sessions h = some s ∧ s.opActive = true)) :
    (findObjectsFinal l h).1 ≠ .ok ∧ (findObjectsFinal l h).2 = l := by
  unfold findObjectsFinal
  cases on : l.initialized with
  | false => simp
  | true =>
    cases known : l.sessions h with
    | none => simp
    | some s =>
      cases active : s.opActive with
      | false => simp [active]
      | true => exact absurd ⟨on, s, known, active⟩ idle

theorem findRefused (idle : ¬ (l.initialized = true ∧ pointers = true ∧ ∃ s, l.sessions h = some s ∧ s.opActive = true)) :
    (findObjects l h pointers limit).1 ≠ .ok ∧ (findObjects l h pointers limit).2.2 = l := by
  unfold findObjects
  cases on : l.initialized with
  | false => simp
  | true =>
    cases known : l.sessions h with
    | none => simp
    | some s =>
      cases active : s.opActive with
      | false => simp [active]
      | true =>
        cases given : pointers with
        | false => simp [active]
        | true => exact absurd ⟨on, given, s, known, active⟩ idle

theorem Active.read (active : Active l.heap s g) (known : l.sessions h = some s) (on : l.initialized = true) :
    ∃ heap : Heap, findObjects l h true limit = (.ok, (g.selected.drop g.returned.length).take limit,
        { l with heap := heap }.setSession h { s with
          findIdx := s.findIdx + ((g.selected.drop g.returned.length).take limit).length }) ∧
      heap.allocated = l.heap.allocated ∧ heap.cells = l.heap.cells ∧
      ∀ a ∈ heap.accesses, a ∈ l.heap.accesses ∨ a.index < maxFindListObjects ∧ a.allocated = true := by
  have length : ((g.selected.drop g.returned.length).take limit).length = min limit (s.findCount - s.findIdx) := by
    rw [List.length_take, List.length_drop, active.count, active.index]
  have handles : (List.range (min limit (s.findCount - s.findIdx))).map
      (fun k => l.heap.cells s.findList (s.findIdx + k)) = (g.selected.drop g.returned.length).take limit := by
    refine List.ext_getElem (by rw [List.length_map, List.length_range, length]) fun k low high => ?_
    rw [length] at high
    have count := active.count
    rw [List.getElem_map, List.getElem_range, List.getElem_take, List.getElem_drop,
      active.cells _ (by omega)]
    simp [active.index]
  simp only [findObjects, on, known, active.active]
  by_cases none : min limit (s.findCount - s.findIdx) = 0
  · have empty : (g.selected.drop g.returned.length).take limit = [] := List.length_eq_zero_iff.mp (length.trans none)
    refine ⟨l.heap, ?_, rfl, rfl, fun _ member => .inl member⟩
    simp [none, empty]
  · refine ⟨(l.heap.read s.findList s.findIdx (min limit (s.findCount - s.findIdx))).1, ?_, rfl, rfl, fun a member => ?_⟩
    · rw [length]
      simp [none, Heap.read, handles]
    · obtain old | new := List.mem_append.mp member
      · exact .inl old
      · obtain ⟨i, range, rfl⟩ := List.mem_map.mp new
        obtain ⟨k, less, rfl⟩ := List.mem_map.mp range
        have count := active.count
        have room := active.room
        have less := List.mem_range.mp less
        refine .inr ⟨show s.findIdx + k < maxFindListObjects by omega, active.allocated⟩

end find

theorem initCases {l : Library} {h : Nat} {template : Option (List Attribute)} {a : Answers} :
    (findObjectsInit l h template a).1 ≠ .ok ∧ (findObjectsInit l h template a).2.sessions = l.sessions ∧
        (findObjectsInit l h template a).2.heap = l.heap ∨
      ∃ t s list heap objects, template = some t ∧ l.sessions h = some s ∧ s.opActive = false ∧
        (if s.findList = 0 then a.memory.map fun b => (b, (l.heap.malloc b).memset b) else some (s.findList, l.heap)) =
          some (list, heap) ∧
        objects s.slotId = searchedObjects l s a ∧
        findObjectsInit l h template a = (.ok, { l with
            objects := objects
            heap := (findMatchingObjects list t (searchedObjects l s a).objects 0 heap).2 }.setSession h
          { s with
            findList := list
            findCount := (findMatchingObjects list t (searchedObjects l s a).objects 0 heap).1
            findIdx := 0
            opActive := true }) := by
  simp only [findObjectsInit]
  split
  · exact .inl ⟨by simp, rfl, rfl⟩
  · cases template with
    | none => exact .inl ⟨by simp, rfl, rfl⟩
    | some t =>
      cases known : l.sessions h with
      | none => exact .inl ⟨by simp, rfl, rfl⟩
      | some s =>
        simp only
        split
        · exact .inl ⟨by simp, rfl, rfl⟩
        next idle =>
          split
          · exact .inl ⟨by simp, rfl, rfl⟩
          · by_cases empty : (l.objects s.slotId).objects = []
            · simp only [empty, if_true, true_and]
              split
              next failed => exact .inl ⟨failed, rfl, rfl⟩
              · split
                · exact .inl ⟨by simp, rfl, rfl⟩
                next list heap memory =>
                  have objects : (Function.update l.objects s.slotId a.fetched) s.slotId = searchedObjects l s a := by
                    rw [Function.update_self, searchedObjects, if_pos empty]
                  exact .inr ⟨t, s, list, heap, _, rfl, rfl, Bool.eq_false_iff.mpr idle, memory, objects, by rw [objects]⟩
            · simp only [empty, if_false, false_and]
              split
              · exact .inl ⟨by simp, rfl, rfl⟩
              next list heap memory =>
                have objects : l.objects s.slotId = searchedObjects l s a := by rw [searchedObjects, if_neg empty]
                exact .inr ⟨t, s, list, heap, l.objects, rfl, rfl, Bool.eq_false_iff.mpr idle, memory, objects, by rw [objects]⟩

theorem sessionSet (l : Library) (h : Nat) (s : Session) : (l.setSession h s).sessions h = some s :=
  Function.update_self _ _ _

theorem beginKnown {w : World} {l : Library} {h : Nat} {t : List Attribute} {s : Session} (known : l.sessions h = some s) :
    w.begin l h t = ⟨l, Function.update w.searches h
      (some ⟨selectedHandles t (l.objects s.slotId).objects, [], false⟩)⟩ := by
  rw [World.begin, known]
  rfl

theorem stepFind (w : World) (h : Nat) (pointers : Bool) (limit : Nat) : step w (.find h pointers limit) =
    some (if (findObjects w.library h pointers limit).1 = .ok then
      w.hand (findObjects w.library h pointers limit).2.2 h limit (findObjects w.library h pointers limit).2.1
    else { w with library := (findObjects w.library h pointers limit).2.2 }) := rfl

theorem stepFinal (w : World) (h : Nat) : step w (.final h) =
    some (if (findObjectsFinal w.library h).1 = .ok then
      ⟨(findObjectsFinal w.library h).2, Function.update w.searches h none⟩
    else { w with library := (findObjectsFinal w.library h).2 }) := rfl

theorem stepInit {w : World} {h : Nat} {a : Answers} (lawful : a.Lawful w.library.heap) :
    step w (.init h template a) = some (if (findObjectsInit w.library h template a).1 = .ok then
      w.begin (findObjectsInit w.library h template a).2 h (template.getD [])
    else { w with library := (findObjectsInit w.library h template a).2 }) :=
  if_pos lawful

namespace Kept
variable {w w' : World}

theorem searched (kept : Kept w) : Searched w where
  handed := fun h g found => by
    obtain ⟨s, _, active⟩ := kept.known h g found
    rw [List.take_of_length_le active.room]
    exact active.handed
  once := fun h g found => by
    obtain ⟨s, _, active⟩ := kept.known h g found
    exact active.distinct.sublist active.handed.sublist
  complete := fun h g found exhausted => by
    obtain ⟨s, _, active⟩ := kept.known h g found
    rw [List.take_of_length_le active.room]
    exact active.exhausted exhausted
  next := fun h g limit found on => by
    obtain ⟨s, known, active⟩ := kept.known h g found
    obtain ⟨heap, result, _⟩ := @Active.read w.library s g h limit active known on
    rw [result, List.take_of_length_le active.room]
    exact ⟨rfl, rfl⟩
  inside := kept.inside
  live := kept.live

theorem opened (opened : Opened w) : Kept w where
  known := fun h g found => by
    rw [opened.searches h] at found
    cases found
  idle := fun h s known _ => (opened.sessions h s known).2
  apart := fun h _ s _ _ known _ active _ => by
    rw [(opened.sessions h s known).2] at active
    cases active
  inside := fun a member => by
    rw [opened.accesses] at member
    cases member
  live := fun a member => by
    rw [opened.accesses] at member
    cases member

theorem change {h : Nat} {s : Session} {library : Library} {heap : Heap} {search : Option Search}
    {objects : Nat → ObjectList} (kept : Kept w)
    (result : library = { w.library with heap := heap, objects := objects }.setSession h s)
    (found : match search with
      | none => s.opActive = false
      | some g => Active heap s g)
    (fresh : ∀ h' s', h' ≠ h → w.library.sessions h' = some s' → s'.opActive = true →
      (s.opActive = true → s.findList ≠ s'.findList) ∧ heap.allocated s'.findList = w.library.heap.allocated s'.findList ∧
        heap.cells s'.findList = w.library.heap.cells s'.findList)
    (accesses : ∀ a ∈ heap.accesses, a ∈ w.library.heap.accesses ∨ a.index < maxFindListObjects ∧ a.allocated = true) :
    Kept ⟨library, Function.update w.searches h search⟩ := by
  subst result
  have sessionSelf : (Function.update w.library.sessions h (some s)) h = some s := Function.update_self _ _ _
  have sessionOther {h' : Nat} (other : h' ≠ h) :
      (Function.update w.library.sessions h (some s)) h' = w.library.sessions h' := Function.update_of_ne other _ _
  have searchSelf : (Function.update w.searches h search) h = search := Function.update_self _ _ _
  have searchOther {h' : Nat} (other : h' ≠ h) : (Function.update w.searches h search) h' = w.searches h' :=
    Function.update_of_ne other _ _
  refine ⟨fun h' g member => ?_, fun h' s' member none => ?_, fun h₁ h₂ s₁ s₂ differ known₁ known₂ active₁ active₂ => ?_,
    fun a member => ?_, fun a member => ?_⟩
  · by_cases same : h' = h
    · subst same
      have member := searchSelf.symm.trans member
      subst member
      exact ⟨s, sessionSelf, found⟩
    · obtain ⟨s', known, active⟩ := kept.known h' g ((searchOther same).symm.trans member)
      obtain ⟨_, allocated, cells⟩ := fresh h' s' same known active.active
      refine ⟨s', (sessionOther same).trans known, { active with allocated := allocated.trans active.allocated, cells := ?_ }⟩
      intro k inside
      exact (congrFun cells k).trans (active.cells k inside)
  · by_cases same : h' = h
    · subst same
      have none := searchSelf.symm.trans none
      subst none
      cases sessionSelf.symm.trans member
      exact found
    · exact kept.idle h' s' ((sessionOther same).symm.trans member) ((searchOther same).symm.trans none)
  · by_cases first : h₁ = h
    · subst first
      cases sessionSelf.symm.trans known₁
      have known₂ := (sessionOther (Ne.symm differ)).symm.trans known₂
      exact (fresh h₂ s₂ (Ne.symm differ) known₂ active₂).1 active₁
    · have other₁ : w.library.sessions h₁ = some s₁ := (sessionOther first).symm.trans known₁
      by_cases second : h₂ = h
      · subst second
        cases sessionSelf.symm.trans known₂
        exact ((fresh h₁ s₁ first other₁ active₁).1 active₂).symm
      · exact kept.apart h₁ h₂ s₁ s₂ differ other₁ ((sessionOther second).symm.trans known₂) active₁ active₂
  · obtain old | new := accesses a member
    · exact kept.inside a old
    · exact new.1
  · obtain old | new := accesses a member
    · exact kept.live a old
    · exact new.2

theorem refused {library : Library} (kept : Kept w) (sessions : library.sessions = w.library.sessions)
    (heap : library.heap = w.library.heap) : Kept { w with library := library } where
  known := fun h g found => by
    obtain ⟨s, known, active⟩ := kept.known h g found
    exact ⟨s, (congrFun sessions h).trans known, heap ▸ active⟩
  idle := fun h s known none => kept.idle h s ((congrFun sessions h).symm.trans known) none
  apart := fun h h' s s' differ known known' => kept.apart h h' s s' differ ((congrFun sessions h).symm.trans known)
    ((congrFun sessions h').symm.trans known')
  inside := fun a member => kept.inside a (heap ▸ member)
  live := fun a member => kept.live a (heap ▸ member)

theorem activeSearch (kept : Kept w) {h : Nat} {s : Session} (known : w.library.sessions h = some s)
    (active : s.opActive = true) : ∃ g, w.searches h = some g ∧ Active w.library.heap s g := by
  cases found : w.searches h with
  | none =>
    rw [kept.idle h s known found] at active
    cases active
  | some g =>
    obtain ⟨s', known', searching⟩ := kept.known h g found
    cases known.symm.trans known'
    exact ⟨g, rfl, searching⟩

theorem find {h limit : Nat} {pointers : Bool} (kept : Kept w) (done : step w (.find h pointers limit) = some w') : Kept w' := by
  rw [stepFind] at done
  have done := Option.some.inj done
  subst done
  by_cases ready : w.library.initialized = true ∧ pointers = true ∧ ∃ s, w.library.sessions h = some s ∧ s.opActive = true
  · obtain ⟨on, rfl, s, known, active⟩ := ready
    obtain ⟨g, searching, search⟩ := kept.activeSearch known active
    obtain ⟨heap, result, allocated, cells, accesses⟩ := @Active.read w.library s g h limit search known on
    rw [result, if_pos rfl]
    unfold World.hand
    rw [searching, Option.map_some]
    have handed : (g.selected.drop g.returned.length).take limit =
        (g.selected.take (g.returned.length + limit)).drop g.returned.length := by
      rw [List.drop_take, Nat.add_sub_cancel_left]
    have front : g.returned = g.selected.take g.returned.length := List.prefix_iff_eq_take.mp search.handed
    have joined : g.returned ++ (g.selected.drop g.returned.length).take limit =
        g.selected.take (g.returned.length + limit) := by
      rw [List.take_add, ← front]
    refine @change w h _ _ heap _ w.library.objects kept rfl ?_ (fun h' s' other known' active' => ⟨fun _ => ?_, ?_, ?_⟩) accesses
    · refine { search with
        allocated := by rw [allocated]; exact search.allocated
        index := by rw [List.length_append, search.index]
        handed := joined ▸ List.take_prefix _ _
        cells := by rw [cells]; exact search.cells
        exhausted := fun told => ?_ }
      obtain before | now := Bool.or_eq_true_iff.mp told
      · have all := search.exhausted before
        rw [joined]
        exact List.take_of_length_le (by rw [← all]; omega)
      · obtain ⟨empty, positive⟩ := of_decide_eq_true now
        have rest : g.selected.drop g.returned.length = [] := by
          cases rest : g.selected.drop g.returned.length with
          | nil => rfl
          | cons x xs =>
            rw [rest] at empty
            obtain ⟨k, rfl⟩ := Nat.exists_eq_succ_of_ne_zero (Nat.ne_of_gt positive)
            cases empty
        rw [joined]
        refine List.take_of_length_le ?_
        have short := List.drop_eq_nil_iff.mp rest
        omega
    · exact kept.apart h h' s s' (Ne.symm other) known known' active active'
    · rw [allocated]
    · rw [cells]
  · have refusal := @findRefused w.library h limit pointers ready
    rw [if_neg refusal.1]
    exact kept.refused (by rw [refusal.2]) (by rw [refusal.2])

theorem final {h : Nat} (kept : Kept w) (done : step w (.final h) = some w') : Kept w' := by
  rw [stepFinal] at done
  have done := Option.some.inj done
  subst done
  by_cases ready : w.library.initialized = true ∧ ∃ s, w.library.sessions h = some s ∧ s.opActive = true
  · obtain ⟨on, s, known, active⟩ := ready
    obtain ⟨g, searching, search⟩ := kept.activeSearch known active
    have result : findObjectsFinal w.library h =
        (.ok, { w.library with heap := (w.library.heap.memset s.findList).free s.findList }.setSession h
          { s with opActive := false, findCount := 0, findIdx := 0 }) := by
      simp [findObjectsFinal, on, known, active, search.list]
    rw [result, if_pos rfl]
    refine @change w h _ _ _ none w.library.objects kept rfl rfl (fun h' s' other known' active' => ?_) fun a member => ?_
    · have differ := kept.apart h h' s s' (Ne.symm other) known known' active active'
      refine ⟨fun off => absurd off Bool.false_ne_true, ?_, ?_⟩
      · simp [Heap.free, Heap.memset, Heap.note, Function.update_of_ne differ.symm]
      · simp [Heap.free, Heap.memset, Heap.note, Function.update_of_ne differ.symm]
    · obtain old | new := List.mem_append.mp member
      · exact .inl old
      · obtain ⟨i, range, rfl⟩ := List.mem_map.mp new
        exact .inr ⟨List.mem_range.mp range, search.allocated⟩
  · have refusal := finalRefused ready
    rw [if_neg refusal.1]
    exact kept.refused (by rw [refusal.2]) (by rw [refusal.2])

theorem init {h : Nat} {template : Option (List Attribute)} {a : Answers} (kept : Kept w)
    (keeps : KeepsList w (.init h template a)) (done : step w (.init h template a) = some w') : Kept w' := by
  by_cases lawful : a.Lawful w.library.heap
  · rw [stepInit lawful] at done
    have done := Option.some.inj done
    subst done
    obtain ⟨failed, sessions, heap⟩ | ⟨t, s, list, heap, objects, rfl, known, idle, memory, same, result⟩ :=
      @initCases w.library h template a
    · rw [if_neg failed]
      exact kept.refused sessions heap
    · obtain ⟨s', known', starts⟩ := startsExactly.mp (congrArg Prod.fst result)
      cases known.symm.trans known'
      obtain ⟨unused, room⟩ := keeps s known starts
      rw [if_pos unused] at memory
      obtain ⟨b, allocation, pair⟩ := Option.map_eq_some_iff.mp memory
      obtain ⟨rfl, rfl⟩ := Prod.mk.inj pair
      obtain ⟨nonzero, new⟩ := lawful b allocation
      obtain ⟨count, filled⟩ := @findMatchingFilled ((w.library.heap.malloc b).memset b) b 0 t
        (searchedObjects w.library s a).objects (by simpa using room)
      rw [Nat.zero_add] at count
      have allocated : ((w.library.heap.malloc b).memset b).allocated b = true := Function.update_self _ _ _
      rw [result, if_pos rfl]
      rw [beginKnown (sessionSet _ _ _)]
      refine @change w h _ _ _ _ objects kept rfl ?_ (fun h' s' other known' active' => ?_) fun a member => ?_
      · have chosen : selectedHandles t (objects s.slotId).objects =
            selectedHandles t (searchedObjects w.library s a).objects := by rw [same]
        change Active _ _ ⟨selectedHandles t (objects s.slotId).objects, [], false⟩
        rw [chosen]
        exact {
          active := rfl
          list := nonzero
          allocated := (congrFun filled.allocated b).trans allocated
          count := count
          room := room
          index := rfl
          handed := List.nil_prefix
          cells := fun k inside => by
            have cell := filled.cells k inside
            rwa [Nat.zero_add] at cell
          distinct := (searchedObjects w.library s a).distinct.sublist (List.filter_sublist.map _)
          exhausted := fun told => absurd told Bool.false_ne_true }
      · obtain ⟨g, _, search⟩ := kept.activeSearch known' active'
        have differ : s'.findList ≠ b := by
          intro same
          have busy := search.allocated
          rw [same, new] at busy
          cases busy
        refine ⟨fun _ => differ.symm, ?_, ?_⟩
        · rw [filled.allocated]
          exact Function.update_of_ne differ _ _
        · rw [filled.others _ differ]
          exact Function.update_of_ne differ _ _
      · obtain old | ⟨inside, live⟩ := filled.accesses a member
        · obtain before | new := List.mem_append.mp old
          · exact .inl before
          · obtain ⟨i, range, rfl⟩ := List.mem_map.mp new
            exact .inr ⟨List.mem_range.mp range, Function.update_self _ _ _⟩
        · exact .inr ⟨inside, live.trans allocated⟩
  · rw [step, if_neg lawful] at done
    cases done

theorem step {c : Call} (kept : Kept w) (keeps : KeepsList w c) (done : step w c = some w') : Kept w' := by
  cases c with
  | init h template a => exact kept.init keeps done
  | find h pointers limit => exact kept.find done
  | final h => exact kept.final done

theorem play {cs : List Call} (kept : Kept w) (along : Along w cs) (played : play w cs = some w') : Kept w' := by
  induction cs generalizing w with
  | nil =>
    cases played
    exact kept
  | cons c cs ih =>
    obtain ⟨mid, stepped, rest⟩ := Option.bind_eq_some_iff.mp played
    obtain ⟨now, later⟩ := along
    rw [stepped] at later
    exact ih (kept.step now stepped) later rest

end Kept

theorem searchesRight {w w' : World} {cs : List Call} (opened : Opened w) (along : Along w cs) (played : play w cs = some w') :
    Searched w' :=
  ((Kept.opened opened).play along played).searched

def exampleObjects : ObjectList where
  objects := [⟨11, [⟨0, [2]⟩]⟩, ⟨12, [⟨0, [3]⟩]⟩, ⟨13, [⟨0, [2]⟩, ⟨3, [7]⟩]⟩]
  distinct := by decide

def exampleSession : Session := ⟨0, 0, 0, 0, false⟩

def exampleWorld (objects : ObjectList) : World where
  library := ⟨true, fun h => if h = 1 ∨ h = 2 then some exampleSession else none, fun _ => objects,
    ⟨fun _ => false, fun _ _ => 0, []⟩⟩
  searches := fun _ => none

theorem exampleOpened (objects : ObjectList) : Opened (exampleWorld objects) where
  searches := fun _ => rfl
  sessions := fun h s known => by
    simp only [exampleWorld] at known
    split at known
    · cases known
      exact ⟨rfl, rfl⟩
    · cases known
  accesses := rfl

def exampleAnswers (memory : Option Nat) : Answers := ⟨⟨[], List.nodup_nil⟩, .ok, memory⟩

def exampleCalls : List Call :=
  [.init 1 (some [⟨0, [2]⟩]) (exampleAnswers (some 100)), .find 1 true 1, .init 2 (some []) (exampleAnswers (some 200)),
    .find 2 true 2, .find 1 true 5, .find 1 true 5]

theorem searchesRightExample : ∃ w, play (exampleWorld exampleObjects) exampleCalls = some w ∧
    w.searches 1 = some ⟨[11, 13], [11, 13], true⟩ ∧ w.searches 2 = some ⟨[11, 12, 13], [11, 12], false⟩ ∧ Searched w := by
  have searches : (play (exampleWorld exampleObjects) exampleCalls).map (fun w => (w.searches 1, w.searches 2)) =
      some (some ⟨[11, 13], [11, 13], true⟩, some ⟨[11, 12, 13], [11, 12], false⟩) := by decide
  obtain ⟨w, played, pair⟩ := Option.map_eq_some_iff.mp searches
  obtain ⟨first, second⟩ := Prod.mk.inj pair
  exact ⟨w, played, first, second,
    searchesRight (exampleOpened exampleObjects) (by decide : Along (exampleWorld exampleObjects) exampleCalls) played⟩

def secondCalls : List Call :=
  [.init 1 (some []) (exampleAnswers (some 100)), .final 1, .init 1 (some []) (exampleAnswers none), .find 1 true 1]

def manyObjects : ObjectList where
  objects := (List.range 101).map fun n => ⟨n, []⟩
  distinct := by
    rw [List.map_map]
    exact List.nodup_range.map fun _ _ same => same

theorem listMisused :
    (∃ w, play (exampleWorld exampleObjects) secondCalls = some w ∧
      ⟨100, 0, false⟩ ∈ w.library.heap.accesses ∧ ¬ Searched w) ∧
    ∃ w, play (exampleWorld manyObjects) [.init 1 (some []) (exampleAnswers (some 100))] = some w ∧
      ⟨100, 100, true⟩ ∈ w.library.heap.accesses ∧ ¬ Searched w := by
  have released : (play (exampleWorld exampleObjects) secondCalls).map
      (fun w => decide (⟨100, 0, false⟩ ∈ w.library.heap.accesses)) = some true := by decide
  have outside : (play (exampleWorld manyObjects) [.init 1 (some []) (exampleAnswers (some 100))]).map
      (fun w => decide (⟨100, 100, true⟩ ∈ w.library.heap.accesses)) = some true := by decide +kernel
  obtain ⟨w, played, access⟩ := Option.map_eq_some_iff.mp released
  obtain ⟨w', played', access'⟩ := Option.map_eq_some_iff.mp outside
  refine ⟨⟨w, played, of_decide_eq_true access, fun searched => ?_⟩,
    w', played', of_decide_eq_true access', fun searched => ?_⟩
  · exact absurd (searched.live _ (of_decide_eq_true access)) Bool.false_ne_true
  · exact absurd (searched.inside _ (of_decide_eq_true access')) (Nat.lt_irrefl 100)

end Flexbuild.ObjectSearch
