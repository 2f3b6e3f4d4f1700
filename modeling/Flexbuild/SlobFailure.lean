import Flexbuild.SlobTiling

/-! What a failed call leaves behind. `cut_free` and `add_free` return -ENOMEM at the first list
that needs a descriptor when the pool is empty, and do not undo what they did to the lists
before it. -/
namespace Flexbuild.Slob
open Words BootMemory Chains Intervals

def splitBy (hold : Span) (i : Index) (b : Span) : Bool :=
  b.base + alignment i ≤ hold.base ∧ up i hold.endAddr + alignment i ≤ b.endAddr

def clearedBy (hold : Span) (i : Index) (b : Span) : Bool :=
  (b.base < hold.endAddr ∧ hold.endAddr ≤ b.endAddr) ∧
    hold.base < b.base + alignment i ∧ b.endAddr < up i hold.endAddr + alignment i

def cutNeeds (hold : Span) (i : Index) (xs : List Span) : Bool := xs.any (splitBy hold i)

def cutFrees (hold : Span) (i : Index) (xs : List Span) : Nat := (xs.any (clearedBy hold i)).toNat

def coalesced (free : List Span) (p : Span) : Span :=
  ⟨((free.find? (fun f => f.endAddr = p.base)).map Extent.base).getD p.base,
    ((free.find? (fun f => f.base = p.endAddr)).map Extent.endAddr).getD p.endAddr⟩

def touching (c : Span) (i : Index) (xs : List Span) : List Span :=
  xs.filter (fun b => up i c.base ≤ b.endAddr ∧ b.base ≤ c.endAddr)

def fitsIn (i : Index) (b : Span) : Bool := b.base + alignment i ≤ b.endAddr

def addNeeds (c : Span) (i : Index) (xs : List Span) : Bool :=
  up i c.base < c.endAddr ∧ touching c i xs = [] ∧ (fitsIn i (image i c) ∨ xs.any (fun b => c.endAddr < b.base))

def addFrees (c : Span) (i : Index) (xs : List Span) : Nat :=
  if up i c.base < c.endAddr then (touching c i xs).length - (fitsIn i (image i c)).toNat else 0

def Enough (needs : Index → Bool) (frees : Index → Nat) : Nat → List Index → Prop
  | _, [] => True
  | left, i :: rest => (needs i = true → 0 < left) ∧ Enough needs frees (left + frees i - (needs i).toNat) rest

instance decideEnough (needs : Index → Bool) (frees : Index → Nat) :
    (left : Nat) → (lists : List Index) → Decidable (Enough needs frees left lists)
  | _, [] => .isTrue trivial
  | left, i :: rest =>
    @instDecidableAnd _ _ _ (decideEnough needs frees (left + frees i - (needs i).toNat) rest)

def Cost (needs : Bool) (frees : Nat) (spare : List Nat) : Option (List Nat) → Prop
  | none => needs = true ∧ spare = []
  | some spare' => (needs = true → spare ≠ []) ∧ spare'.length + needs.toNat = spare.length + frees

theorem anyNone {α : Type*} {p : α → Bool} {xs : List α} (none : ∀ a ∈ xs, p a = false) : xs.any p = false :=
  List.any_eq_false.mpr (fun a mem => by simp [none a mem])

theorem anyAlone {α : Type*} {p : α → Bool} {xs ys : List α} {b : α} (before : ∀ a ∈ xs, p a = false)
    (after : ∀ a ∈ ys, p a = false) : (xs ++ b :: ys).any p = p b := by
  rw [List.any_append, List.any_cons, anyNone before, anyNone after, Bool.false_or, Bool.or_false]

section cut
variable {hold f : Span} {i : Index}

theorem clearBlock {b : Span} (proper : hold.Proper) (clear : b.endAddr < hold.endAddr ∨ hold.endAddr ≤ b.base) :
    splitBy hold i b = false ∧ clearedBy hold i b = false := by
  have above := leUp i hold.endAddr
  unfold Extent.Proper at proper
  simp only [splitBy, clearedBy, decide_eq_false_iff_not]
  omega

theorem cutNodesCostHere {n : Node} {rest : List Node} (spare : List Nat) (within : Within hold f)
    (room : f.endAddr + 2 ^ 20 ≤ 2 ^ 64) (value : n.value = image i f)
    (later : ∀ k ∈ rest, hold.endAddr ≤ k.value.base) :
    Cost (splitBy hold i n.value) (clearedBy hold i n.value).toNat spare
      ((cutNodes hold.base hold.endAddr i (n :: rest) spare).map Prod.snd) := by
  have low := within.low
  have holds := within.proper
  have high := within.high
  have above := leUp i f.base
  have pos := alignmentPos i
  unfold Extent.Proper at holds
  have size : up i hold.endAddr < f.endAddr →
      minus 64 f.endAddr (up i hold.endAddr) = f.endAddr - up i hold.endAddr :=
    fun lt => minusExact lt.le (by omega)
  have side : up i f.base < hold.base → minus 64 hold.base (up i f.base) = hold.base - up i f.base :=
    fun lt => minusExact lt.le (by omega)
  have split : splitBy hold i n.value =
      decide (up i f.base + alignment i ≤ hold.base ∧ up i hold.endAddr + alignment i ≤ f.endAddr) := by
    rw [value]
    rfl
  have cleared : clearedBy hold i n.value =
      decide ((up i f.base < hold.endAddr ∧ hold.endAddr ≤ f.endAddr) ∧
        hold.base < up i f.base + alignment i ∧ f.endAddr < up i hold.endAddr + alignment i) := by
    rw [value]
    rfl
  rw [split, cleared]
  unfold cutNodes
  simp only [alignUpIs i (by omega : hold.endAddr + 2 ^ 20 ≤ 2 ^ 64), value, image]
  split_ifs with inside drop beyond left right right
  · rw [decide_eq_false (by omega), decide_eq_true]
    · exact ⟨by simp, rfl⟩
    · rcases drop with past | ⟨lt, small⟩
      · omega
      · rw [size lt] at small
        omega
  · simp only [not_or, not_le, not_and, not_lt] at drop
    rw [size drop.1] at drop
    rw [decide_eq_false (by omega), decide_eq_false (by omega)]
    exact ⟨by simp, rfl⟩
  · rw [side beyond.1] at left
    rw [size right.1] at right
    rw [decide_eq_true (by omega), decide_eq_false (by omega)]
    cases spare with
    | nil => exact ⟨rfl, rfl⟩
    | cons new spare => exact ⟨by simp, rfl⟩
  · rw [side beyond.1] at left
    rw [decide_eq_false, decide_eq_false (by omega)]
    · exact ⟨by simp, rfl⟩
    · intro both
      rw [size (by omega)] at right
      omega
  · rw [side beyond.1] at left
    rw [size right.1] at right
    rw [decide_eq_false (by omega), decide_eq_false (by omega)]
    exact ⟨by simp, rfl⟩
  · rw [side beyond.1] at left
    rw [decide_eq_false (by omega), decide_eq_true]
    · exact ⟨by simp, rfl⟩
    · by_contra kept
      rw [size (by omega)] at right
      omega
  · rw [cutNodesClear spare holds (fun k mem => Or.inr (later k mem)), decide_eq_false (by omega),
      decide_eq_false (by omega)]
    exact ⟨by simp, rfl⟩

theorem cutListCost {first stop : Nat} {pre post : List Span} {xs : List Node} (spare : List Nat)
    (within : Within hold f) (sep : Separated (pre ++ f :: post)) (inside : f.endAddr ≤ stop)
    (room : stop + 2 ^ 20 ≤ 2 ^ 64) (ok : ListOk first stop (pre ++ f :: post) i xs) :
    Cost (cutNeeds hold i (spans xs)) (cutFrees hold i (spans xs)) spare
      ((cutNodes hold.base hold.endAddr i xs spare).map Prod.snd) := by
  have proper := within.proper
  have high := within.high
  have quiet : ∀ {zs : List Node},
      (∀ k ∈ zs, k.value.endAddr < hold.endAddr ∨ hold.endAddr ≤ k.value.base) →
      ∀ b ∈ spans zs, splitBy hold i b = false ∧ clearedBy hold i b = false := by
    intro zs clear b mem
    obtain ⟨k, here, rfl⟩ := List.mem_map.mp mem
    exact clearBlock proper (clear k here)
  have untouched : ∀ {zs : List Node},
      (∀ k ∈ zs, k.value.endAddr < hold.endAddr ∨ hold.endAddr ≤ k.value.base) →
      Cost (cutNeeds hold i (spans zs)) (cutFrees hold i (spans zs)) spare
        ((cutNodes hold.base hold.endAddr i zs spare).map Prod.snd) := by
    intro zs clear
    rw [cutNodesClear spare proper clear, cutNeeds, cutFrees, anyNone (fun b mem => (quiet clear b mem).1),
      anyNone (fun b mem => (quiet clear b mem).2)]
    exact ⟨by simp, rfl⟩
  rcases ok with ⟨_, img⟩ | ⟨_, empty⟩
  · obtain ⟨xp, xq, rfl, _, past, block⟩ := cutSplit within sep img
    rcases block with ⟨n, rest, rfl, value, lt, _, later⟩ | ⟨_, _, later⟩
    · have before := quiet (fun k mem => Or.inl (past k mem))
      have after := quiet (fun k mem => Or.inr (later k mem))
      rw [spansAppend, spansCons, cutNeeds, cutFrees,
        anyAlone (fun b mem => (before b mem).1) (fun b mem => (after b mem).1),
        anyAlone (fun b mem => (before b mem).2) (fun b mem => (after b mem).2), cutNodesPast _ _ past,
        Option.map_map]
      exact cutNodesCostHere spare within (by omega) value later
    · apply untouched
      intro k mem
      rcases List.mem_append.mp mem with mem | mem
      · exact Or.inl (past k mem)
      · exact Or.inr (later k mem)
  · apply untouched
    intro n mem
    unfold Extent.Proper at proper
    rcases emptyMem empty mem with value | value <;> rw [value] <;> simp only <;> omega

end cut

section add
variable {i : Index} {a e size : Nat} {joined : Span}

theorem absorbSpare {n : Node} {rest : List Node} (spare : List Nat) (below : a < e) (sized : size = e - a)
    (near : n.value.base ≤ e) (outer : e ≤ n.value.endAddr) (small : n.value.endAddr < 2 ^ 64) :
    (absorbNodes i a e size n rest spare).spare.length + (fitsIn i ⟨min a n.value.base, n.value.endAddr⟩).toNat =
      spare.length + 1 := by
  have grown : (if a < n.value.base ∧ n.value.base ≤ e then (⟨a, n.value.endAddr⟩ : Span) else n.value) =
      ⟨min a n.value.base, n.value.endAddr⟩ := by
    split_ifs with grow
    · rw [Nat.min_eq_left grow.1.le]
    · rw [Nat.min_eq_right (by omega)]
  unfold absorbNodes fitsIn
  simp only [grown]
  rw [minusExact (by omega) small]
  split_ifs with tiny large
  · omega
  · rw [decide_eq_false (by omega)]
    rfl
  · rw [decide_eq_true (by omega)]
    rfl

theorem addNodesCostHere {mid post : List Node} (spare : List Nat) (below : a < e) (sized : size = e - a)
    (meets : Meets a e (spans mid) joined) (small : joined.endAddr < 2 ^ 64)
    (clear : ∀ k ∈ post, e < k.value.base ∧ k.value.base ≤ k.value.endAddr) :
    Cost (decide (mid = [] ∧ (fitsIn i joined = true ∨ post ≠ []))) (mid.length - (fitsIn i joined).toNat) spare
      ((addNodes i a e size (mid ++ post) spare).map Added.spare) := by
  generalize shape : spans mid = ys at meets
  cases meets with
  | none =>
    obtain rfl : mid = [] := List.map_eq_nil_iff.mp shape
    rw [List.nil_append, List.length_nil, Nat.zero_sub]
    cases post with
    | nil =>
      unfold addNodes fitsIn
      split_ifs with large
      · rw [decide_eq_true (by simp only [true_and, decide_eq_true_eq]; omega)]
        cases spare with
        | nil => exact ⟨rfl, rfl⟩
        | cons new spare => exact ⟨by simp, rfl⟩
      · rw [decide_eq_false (by simp only [true_and, decide_eq_true_eq, ne_eq, not_true, or_false]; omega)]
        exact ⟨by simp, rfl⟩
    | cons k post =>
      obtain ⟨far, le⟩ := clear k List.mem_cons_self
      unfold addNodes
      rw [if_pos (by omega), if_neg (by omega), if_pos far, decide_eq_true (by simp)]
      cases spare with
      | nil => exact ⟨rfl, rfl⟩
      | cons new spare => exact ⟨by simp, rfl⟩
  | @left b m low reach inner =>
    obtain ⟨n, rest, rfl, value, none⟩ := List.map_eq_cons_iff.mp shape
    obtain rfl : rest = [] := List.map_eq_nil_iff.mp none
    have bound := Bool.toNat_le (fitsIn i ⟨b, e⟩)
    have spared := @absorbSpare i a e size ⟨n.addr, b, e⟩ post spare below sized (low.trans below.le) le_rfl small
    rw [Nat.min_eq_right low] at spared
    rw [List.cons_append, List.nil_append, decide_eq_false (by simp)]
    unfold addNodes
    rw [value, if_pos reach, if_pos inner, eliminateClear _ clear, value]
    refine ⟨by simp, ?_⟩
    simp only [List.length_singleton, Bool.toNat_false] at spared ⊢
    omega
  | @right m d near outer =>
    obtain ⟨n, rest, rfl, value, none⟩ := List.map_eq_cons_iff.mp shape
    obtain rfl : rest = [] := List.map_eq_nil_iff.mp none
    have bound := Bool.toNat_le (fitsIn i ⟨min a m, d⟩)
    have spared := @absorbSpare i a e size n post spare below sized (by rw [value]; exact near)
      (by rw [value]; exact outer) (by rw [value]; exact small)
    rw [value] at spared
    rw [List.cons_append, List.nil_append, decide_eq_false (by simp)]
    unfold addNodes
    rw [value, if_pos (by simp only; omega), if_neg (by simp only; omega), if_neg (by simp only; omega)]
    refine ⟨by simp, ?_⟩
    simp only [List.length_singleton, Bool.toNat_false] at spared ⊢
    omega
  | @both b m k d low reach inner near outer =>
    obtain ⟨n, rest, rfl, value, one⟩ := List.map_eq_cons_iff.mp shape
    obtain ⟨n', rest, rfl, value', none⟩ := List.map_eq_cons_iff.mp one
    obtain rfl : rest = [] := List.map_eq_nil_iff.mp none
    have bound := Bool.toNat_le (fitsIn i ⟨b, d⟩)
    have spared := @absorbSpare i a e size ⟨n.addr, b, d⟩ post (n'.addr :: spare) below sized
      (low.trans below.le) outer small
    rw [Nat.min_eq_right low] at spared
    rw [List.cons_append, List.cons_append, List.nil_append, decide_eq_false (by simp)]
    unfold addNodes eliminateNodes
    rw [value, value', if_pos reach, if_pos inner, if_neg (by simp only; omega), if_neg (by simp only; omega)]
    refine ⟨by simp, ?_⟩
    simp only [List.length_cons, List.length_nil, Bool.toNat_false] at spared ⊢
    omega

theorem addNodesCost {before mid after : List Span} {xs : List Node} (spare : List Nat)
    (below : a < e) (sized : size = e - a) (split : spans xs = before ++ (mid ++ after))
    (earlier : ∀ y ∈ before, y.endAddr < a) (meets : Meets a e mid joined) (small : joined.endAddr < 2 ^ 64)
    (clear : ∀ y ∈ after, e < y.base ∧ y.base ≤ y.endAddr) :
    Cost (decide (mid = [] ∧ (fitsIn i joined = true ∨ after ≠ []))) (mid.length - (fitsIn i joined).toNat) spare
      ((addNodes i a e size xs spare).map Added.spare) := by
  obtain ⟨pre, rest, rfl, rfl, inner⟩ := List.map_eq_append_iff.mp split
  obtain ⟨xm, post, rfl, rfl, rfl⟩ := List.map_eq_append_iff.mp inner
  rw [addNodesPast _ _ (fun n mem => earlier _ (List.mem_map_of_mem mem)), Option.map_map]
  have here := addNodesCostHere (i := i) spare below sized meets small
    (fun k mem => clear _ (List.mem_map_of_mem mem))
  simp only [ne_eq, List.map_eq_nil_iff, List.length_map]
  exact here

theorem meetsInside {mid : List Span} (below : a < e) (meets : Meets a e mid joined) :
    ∀ y ∈ mid, a ≤ y.endAddr ∧ y.base ≤ e := by
  cases meets with
  | none => simp
  | left low reach inner =>
    simp only [List.mem_singleton, forall_eq]
    omega
  | right near outer =>
    simp only [List.mem_singleton, forall_eq]
    omega
  | both low reach inner near outer =>
    simp only [List.mem_cons, List.not_mem_nil, or_false, forall_eq_or_imp, forall_eq]
    omega

theorem demandIs {c : Span} {before mid after : List Span} (below : up i c.base < c.endAddr)
    (earlier : ∀ y ∈ before, y.base ≤ y.endAddr ∧ y.endAddr < up i c.base)
    (inside : ∀ y ∈ mid, up i c.base ≤ y.endAddr ∧ y.base ≤ c.endAddr) (clear : ∀ y ∈ after, c.endAddr < y.base) :
    addNeeds c i (before ++ (mid ++ after)) =
        decide (mid = [] ∧ (fitsIn i (image i c) = true ∨ after ≠ [])) ∧
      addFrees c i (before ++ (mid ++ after)) = mid.length - (fitsIn i (image i c)).toNat := by
  have met : touching c i (before ++ (mid ++ after)) = mid := by
    have left : before.filter (fun b => up i c.base ≤ b.endAddr ∧ b.base ≤ c.endAddr) = [] := by
      apply List.filter_eq_nil_iff.mpr
      intro y mem
      have := earlier y mem
      simp only [decide_eq_true_eq]
      omega
    have right : after.filter (fun b => up i c.base ≤ b.endAddr ∧ b.base ≤ c.endAddr) = [] := by
      apply List.filter_eq_nil_iff.mpr
      intro y mem
      have := clear y mem
      simp only [decide_eq_true_eq]
      omega
    have here : mid.filter (fun b => up i c.base ≤ b.endAddr ∧ b.base ≤ c.endAddr) = mid := by
      apply List.filter_eq_self.mpr
      intro y mem
      simpa using inside y mem
    rw [touching, List.filter_append, List.filter_append, left, right, here, List.nil_append, List.append_nil]
  have last : (before ++ (mid ++ after)).any (fun b => c.endAddr < b.base) = decide (after ≠ []) := by
    rw [List.any_append, List.any_append, anyNone, anyNone, Bool.false_or, Bool.false_or]
    · cases after with
      | nil => rfl
      | cons y rest => simp [clear y List.mem_cons_self]
    · intro y mem
      have := inside y mem
      simp only [decide_eq_false_iff_not]
      omega
    · intro y mem
      have := earlier y mem
      simp only [decide_eq_false_iff_not]
      omega
  constructor
  · simp [addNeeds, met, last, below]
  · rw [addFrees, if_pos below, met]

theorem addListCost {p : Span} {pre touched post : List Span} {xs : List Node} (spare : List Nat)
    (join : Join p pre touched post joined) (proper : p.Proper) (sep : Separated (pre ++ (touched ++ post)))
    (small : joined.endAddr < 2 ^ 64) (img : Image i (pre ++ (touched ++ post)) (spans xs))
    (below : up i joined.base < joined.endAddr) :
    Cost (addNeeds joined i (spans xs)) (addFrees joined i (spans xs)) spare
      ((addNodes i (up i joined.base) joined.endAddr (joined.endAddr - up i joined.base) xs spare).map
        Added.spare) := by
  have propers := (separatedAppend.mp (separatedAppend.mp sep).2.1).1.1
  obtain ⟨left, mid, right, split, _, imgMid, _, earlier, clear⟩ := addSplit join proper sep img
  have meets := touchMeetsImage join.touch proper imgMid propers
  obtain ⟨needs, frees⟩ := demandIs below earlier (meetsInside below meets) (fun y mem => (clear y mem).1)
  rw [split, needs, frees]
  exact addNodesCost spare below rfl split (fun y mem => (earlier y mem).2) meets small clear

theorem addUnitCost {p : Span} {pre touched post : List Span} {xs : List Node} (spare : List Nat)
    (join : Join p pre touched post joined) (proper : p.Proper) (sep : Separated (pre ++ (touched ++ post)))
    (small : joined.endAddr < 2 ^ 64) (list : spans xs = pre ++ (touched ++ post)) :
    Cost (addNeeds joined 0 (spans xs)) (addFrees joined 0 (spans xs)) spare
      ((addNodes 0 p.base p.endAddr (p.endAddr - p.base) xs spare).map Added.spare) := by
  have sep' := joinSeparated join proper sep
  obtain ⟨sepPre, inner, near⟩ := separatedAppend.mp sep'
  obtain ⟨properJoined, far, sepPost⟩ := separatedCons.mp inner
  have propers := (separatedAppend.mp (separatedAppend.mp sep).2.1).1.1
  obtain ⟨⟨low, high⟩, inside⟩ := touchInside join.touch proper propers
  unfold Extent.Proper at properJoined
  obtain ⟨needs, frees⟩ := @demandIs 0 joined pre touched post (by rw [upZero]; exact properJoined)
    (fun y mem => ⟨(sepPre.1 y mem).le, by rw [upZero]; exact near y mem joined List.mem_cons_self⟩)
    (fun y mem => by
      have here := inside y mem
      have lt := propers y mem
      unfold Extent.Proper at lt
      rw [upZero]
      omega)
    far
  have same : image 0 joined = joined := by rw [image, upZero]
  rw [list, needs, frees, same]
  exact addNodesCost spare proper rfl list join.before (touchMeets join.touch proper propers) small
    (fun y mem => ⟨join.after y mem, (sepPost.1 y mem).le⟩)

end add

theorem cutEnough {holdBase holdEnd : Nat} {needs : Index → Bool} {frees : Index → Nat} {lists : List Index}
    {v : View} (nodup : lists.Nodup)
    (cost : ∀ i ∈ lists, ∀ spare, Cost (needs i) (frees i) spare
      ((cutNodes holdBase holdEnd i (v.lists (.free i)) spare).map Prod.snd)) :
    (∃ v', v.cut holdBase holdEnd lists = (.ok (), v')) ↔ Enough needs frees v.spare.length lists := by
  induction lists generalizing v with
  | nil => exact ⟨fun _ => trivial, fun _ => ⟨v, rfl⟩⟩
  | cons i rest ih =>
    obtain ⟨fresh, nodupRest⟩ := List.nodup_cons.mp nodup
    have here := cost i List.mem_cons_self v.spare
    unfold View.cut Enough
    cases out : cutNodes holdBase holdEnd i (v.lists (.free i)) v.spare with
    | none =>
      rw [out] at here
      simp [here.1, here.2]
    | some r =>
      obtain ⟨nodes, spare⟩ := r
      rw [out] at here
      obtain ⟨finds, count⟩ := here
      simp only at count
      have later : ∀ j ∈ rest, ({v.setList (.free i) nodes with spare := spare} : View).lists (.free j) =
          v.lists (.free j) := by
        intro j mem
        have ne : j ≠ i := fun eq => fresh (eq ▸ mem)
        exact Function.update_of_ne (fun eq => ne (Which.free.inj eq)) _ _
      have next := @ih {v.setList (.free i) nodes with spare := spare} nodupRest
        (fun j mem spare => by rw [later j mem]; exact cost j (List.mem_cons_of_mem _ mem) spare)
      have length : v.spare.length + frees i - (needs i).toNat = spare.length := by omega
      rw [length]
      simp only
      rw [next]
      exact ⟨fun ok => ⟨fun need => List.length_pos_of_ne_nil (finds need), ok⟩, fun ok => ok.2⟩

theorem addEnough {bounds : Span} {needs : Index → Bool} {frees : Index → Nat} {lists : List Index} {v : View}
    (nodup : lists.Nodup)
    (cost : ∀ i ∈ lists, ∀ u : View, u.lists (.free i) = v.lists (.free i) →
      Cost (needs i) (frees i) u.spare ((u.addList i bounds).map (fun r => r.2.spare)))
    (same : ∀ i ∈ lists, ∀ u u' : View, ∀ b, u.addList i bounds = some (b, u') →
      b = bounds ∧ ∀ j, j ≠ i → u'.lists (.free j) = u.lists (.free j)) :
    (∃ v', v.add lists bounds = (.ok (), v')) ↔ Enough needs frees v.spare.length lists := by
  induction lists generalizing v with
  | nil => exact ⟨fun _ => trivial, fun _ => ⟨v, rfl⟩⟩
  | cons i rest ih =>
    obtain ⟨fresh, nodupRest⟩ := List.nodup_cons.mp nodup
    have here := cost i List.mem_cons_self v rfl
    unfold View.add Enough
    cases out : v.addList i bounds with
    | none =>
      rw [out] at here
      simp [here.1, here.2]
    | some r =>
      obtain ⟨b, u⟩ := r
      obtain ⟨rfl, frame⟩ := same i List.mem_cons_self v u b out
      rw [out] at here
      obtain ⟨finds, count⟩ := here
      simp only at count
      have next := @ih u nodupRest
        (fun j mem w list => cost j (List.mem_cons_of_mem _ mem) w
          (list.trans (frame j (fun eq => fresh (eq ▸ mem)))))
        (fun j mem => same j (List.mem_cons_of_mem _ mem))
      have length : v.spare.length + frees i - (needs i).toNat = u.spare.length := by omega
      rw [length]
      simp only
      rw [next]
      exact ⟨fun ok => ⟨fun need => List.length_pos_of_ne_nil (finds need), ok⟩, fun ok => ok.2⟩

theorem addListFrame {i : Index} {bounds b : Span} {u u' : View} (other : i ≠ 0)
    (done : u.addList i bounds = some (b, u')) :
    b = bounds ∧ ∀ j, j ≠ i → u'.lists (.free j) = u.lists (.free j) := by
  unfold View.addList at done
  simp only [] at done
  split_ifs at done
  · cases done
    exact ⟨rfl, fun _ _ => rfl⟩
  · obtain ⟨r, _, made⟩ := Option.map_eq_some_iff.mp done
    cases made
    refine ⟨boundariesOther _ _ other, fun j ne => ?_⟩
    exact Function.update_of_ne (fun eq => ne (Which.free.inj eq)) _ _

variable {pre touched post : List Span} {p joined : Span}

theorem coalescedIs (join : Join p pre touched post joined)
    (proper : p.Proper) (sep : Separated (pre ++ (touched ++ post))) :
    coalesced (pre ++ (touched ++ post)) p = joined := by
  obtain ⟨sepPre, rest, _⟩ := separatedAppend.mp sep
  obtain ⟨sepTouched, sepPost, _⟩ := separatedAppend.mp rest
  have propers := sepTouched.1
  unfold Extent.Proper at proper propers
  have noLeft : pre.find? (fun f => f.endAddr = p.base) = none ∧ pre.find? (fun f => f.base = p.endAddr) = none := by
    simp only [List.find?_eq_none, decide_eq_true_eq]
    constructor <;> intro f mem
    · exact (join.before f mem).ne
    · have before := join.before f mem
      have inner := sepPre.1 f mem
      unfold Extent.Proper at inner
      omega
  have noRight : post.find? (fun f => f.endAddr = p.base) = none ∧
      post.find? (fun f => f.base = p.endAddr) = none := by
    simp only [List.find?_eq_none, decide_eq_true_eq]
    constructor <;> intro f mem
    · have after := join.after f mem
      have inner := sepPost.1 f mem
      unfold Extent.Proper at inner
      omega
    · exact (join.after f mem).ne'
  unfold coalesced
  simp only [List.find?_append, noLeft, noRight, Option.none_or, Option.or_none]
  cases join.touch with
  | alone => rfl
  | left b =>
    have here := propers _ List.mem_cons_self
    simp only at here
    simp [show b ≠ p.endAddr by omega]
  | right e =>
    have here := propers _ List.mem_cons_self
    simp only at here
    simp [show e ≠ p.base by omega]
  | both b e =>
    simp only [List.mem_cons, List.not_mem_nil, or_false, forall_eq_or_imp, forall_eq] at propers
    simp [show b ≠ p.endAddr by omega]

def GetSafe (lists : Which → List Span) (left size : Nat) (i : Index) : Prop :=
  ∀ b ∈ (lists (.free i)).find? (fun b => size ≤ minus 64 b.endAddr b.base),
    left = 0 ∨ left = 1 ∧ cutNeeds ⟨b.base, b.base + size⟩ 0 (lists (.free 0)) = true ∨
      Enough (fun j => cutNeeds ⟨b.base, b.base + size⟩ j (lists (.free j)))
        (fun j => cutFrees ⟨b.base, b.base + size⟩ j (lists (.free j))) (left - 1)
        (List.finRange (mmMaxAlignment + 1))

def PutSafe (lists : Which → List Span) (left base : Nat) : Prop :=
  ∀ p ∈ (lists .busy).find? (fun b => b.base = base),
    left = 0 ∧ addNeeds (coalesced (lists (.free 0)) p) 0 (lists (.free 0)) = true ∨
      Enough (fun j => addNeeds (coalesced (lists (.free 0)) p) j (lists (.free j)))
        (fun j => addFrees (coalesced (lists (.free 0)) p) j (lists (.free j))) left
        (List.finRange (mmMaxAlignment + 1))

instance (lists : Which → List Span) (left size : Nat) (i : Index) : Decidable (GetSafe lists left size i) :=
  inferInstanceAs (Decidable (∀ b ∈ _, _ ∨ _))

instance (lists : Which → List Span) (left base : Nat) : Decidable (PutSafe lists left base) :=
  inferInstanceAs (Decidable (∀ p ∈ _, _ ∨ _))

structure View.Same (v v' : View) : Prop where
  spans : v'.spans = v.spans
  freeMemSize : v'.freeMemSize = v.freeMemSize
  spare : v'.spare.length = v.spare.length

namespace Tiled
variable {first stop : Nat} {v : View}

theorem cutStops {holdBase holdEnd : Nat} {rest : List Index} {e : Errno} {v v' : View} (apart : (0 : Index) ∉ rest)
    (failed : v.cut holdBase holdEnd (0 :: rest) = (.error e, v')) :
    (cutNodes holdBase holdEnd 0 (v.lists (.free 0)) v.spare = none ∧ v' = v) ∨
      ∃ nodes spare, cutNodes holdBase holdEnd 0 (v.lists (.free 0)) v.spare = some (nodes, spare) ∧
        v'.lists (.free 0) = nodes := by
  have stays : ∀ {lists : List Index} {u u' : View}, (0 : Index) ∉ lists →
      (u.cut holdBase holdEnd lists) = (.error e, u') → u'.lists (.free 0) = u.lists (.free 0) := by
    intro lists
    induction lists with
    | nil =>
      intro u u' _ done
      cases done
    | cons i rest ih =>
      intro u u' outside done
      rw [List.mem_cons, not_or] at outside
      unfold View.cut at done
      split at done
      · cases done
        rfl
      · rw [ih outside.2 done]
        exact Function.update_of_ne (fun eq => outside.1 (Which.free.inj eq)) _ _
  unfold View.cut at failed
  split at failed
  · rename_i none
    cases failed
    exact Or.inl ⟨none, rfl⟩
  · rename_i nodes spare some
    refine Or.inr ⟨nodes, spare, some, ?_⟩
    rw [stays apart failed]
    simp [View.setList]

theorem firstSpans (v : View) (size : Nat) (i : Index) :
    (v.spans (.free i)).find? (fun b => size ≤ minus 64 b.endAddr b.base) = (v.first size i).map Node.value := by
  rw [View.spans, spans, List.find?_map]
  rfl

theorem noFirst (tiled : Tiled first stop v) (room : stop + 2 ^ 20 ≤ 2 ^ 64) {size : Nat} {i : Index}
    (positive : 1 ≤ size)
    (none : v.lists (.free i) = [] ∨ (∃ n rest, v.lists (.free i) = n :: rest ∧ n.value.endAddr = 0) ∨
      ∀ n ∈ v.lists (.free i), minus 64 n.value.endAddr n.value.base < size) : v.first size i = .none := by
  apply List.find?_eq_none.mpr
  intro n mem large
  have fits : size ≤ minus 64 n.value.endAddr n.value.base := by simpa using large
  rcases none with nil | ⟨k, rest, list, zero⟩ | short
  · rw [nil] at mem
    cases mem
  · obtain ⟨f, inside, value, below⟩ := tiled.found room mem positive fits
    rcases tiled.lists i with ⟨_, img⟩ | ⟨past, _⟩
    · obtain ⟨g, _, same, lt⟩ := imageMem img (List.mem_map_of_mem (list ▸ List.mem_cons_self))
      rw [same] at zero
      simp only [image] at zero
      omega
    · have mono := upMono i (tiled.freeInside inside).1
      have high := (tiled.freeInside inside).2
      omega
  · have := short n mem
    omega

theorem cutCost (tiled : Tiled first stop v) {hold f : Span}
    (room : stop + 2 ^ 20 ≤ 2 ^ 64) (split : v.spans (.free 0) = pre ++ f :: post) (within : Within hold f)
    (high : f.endAddr ≤ stop) (j : Index) (spare : List Nat) :
    Cost (cutNeeds hold j (v.spans (.free j))) (cutFrees hold j (v.spans (.free j))) spare
      ((cutNodes hold.base hold.endAddr j (v.lists (.free j)) spare).map Prod.snd) :=
  cutListCost spare within (split ▸ tiled.separated) high room (split ▸ tiled.lists j)

theorem cutChanges (tiled : Tiled first stop v) {hold f : Span} {nodes : List Node}
    {spare spare' : List Nat} (room : stop + 2 ^ 20 ≤ 2 ^ 64) (split : v.spans (.free 0) = pre ++ f :: post)
    (within : Within hold f) (inside : first ≤ f.base ∧ f.endAddr ≤ stop)
    (cut : cutNodes hold.base hold.endAddr 0 (v.lists (.free 0)) spare = some (nodes, spare')) :
    v.spans (.free 0) ≠ spans nodes := by
  have sep : Separated (pre ++ f :: post) := split ▸ tiled.separated
  have proper : f.Proper := sep.1 f (by simp)
  have holds := within.proper
  unfold Extent.Proper at proper holds
  have ok := cutListOk within sep inside.2 room (split ▸ tiled.lists 0) cut
  have zero := listZero (by omega) (removeSeparated within sep).1 ok
  intro same
  have sum := piecesTotal within
  have equal := congrArg total (split.symm.trans (same.trans zero))
  simp only [totalAppend, totalCons, Extent.length] at sum equal
  omega

theorem getIntact (tiled : Tiled first stop v) (room : stop + 2 ^ 20 ≤ 2 ^ 64) {size : Nat} (i : Index)
    (positive : 1 ≤ size) :
    ((∃ r, (v.getAlignment size i).1 = .error r) → v.Same (v.getAlignment size i).2) ↔
      GetSafe v.spans v.spare.length size i := by
  unfold GetSafe
  rw [firstSpans]
  have step := v.getStep size i
  generalize v.getAlignment size i = out at step
  cases step with
  | noBlock none =>
    rw [tiled.noFirst room positive none]
    exact ⟨fun _ b mem => by simp at mem, fun _ _ => ⟨rfl, rfl, rfl⟩⟩
  | noDescriptor found search mem fits empty =>
    exact ⟨fun _ b _ => Or.inl (by simp [empty]), fun _ _ => ⟨rfl, rfl, rfl⟩⟩
  | cutShort found search mem fits addr spare some e v' failed =>
    obtain ⟨f, pre, post, split, within, ⟨low, high⟩, whole⟩ := tiled.holding room mem positive fits
    rw [whole] at failed
    have cost := tiled.cutCost room split within high
    have enough := @cutEnough found.value.base (found.value.base + size) _ _ (List.finRange (mmMaxAlignment + 1))
      {v with held := ⟨addr, found.value.base, found.value.base + size⟩ :: v.held, spare := spare}
      (List.nodup_finRange _) (fun j _ => cost j)
    have short : ¬ Enough _ _ spare.length (List.finRange (mmMaxAlignment + 1)) := fun ok => by
      obtain ⟨v₁, done⟩ := enough.mpr ok
      rw [failed] at done
      cases done
    simp only [search, Option.map_some, Option.mem_def, Option.some.injEq, forall_eq', some, List.length_cons,
      Nat.add_sub_cancel, short, or_false, Nat.succ_ne_zero, false_or]
    rw [List.finRange_succ] at failed
    rcases cutStops (by simp) failed with ⟨none, rfl⟩ | ⟨nodes, spare', cut, list⟩
    · have here := cost 0 spare
      simp only at none
      rw [none] at here
      refine ⟨fun _ => ⟨by simp [here.2], here.1⟩, fun _ _ => ⟨rfl, rfl, ?_⟩⟩
      simp [some]
    · constructor
      · intro intact
        have same : spans (v'.lists (.free 0)) = v.spans (.free 0) := congrFun (intact ⟨_, rfl⟩).spans (.free 0)
        exact absurd (same.symm.trans (by rw [list])) (tiled.cutChanges room split within ⟨low, high⟩ cut)
      · rintro ⟨one, needs⟩
        have here := cost 0 spare
        simp only at cut
        rw [cut] at here
        exact absurd (List.length_eq_zero_iff.mp (by omega)) (here.1 needs)
  | done found search mem fits addr spare some v' cut =>
    obtain ⟨f, pre, post, split, within, ⟨_, high⟩, whole⟩ := tiled.holding room mem positive fits
    rw [whole] at cut
    have enough := @cutEnough found.value.base (found.value.base + size) _ _ (List.finRange (mmMaxAlignment + 1))
      {v with held := ⟨addr, found.value.base, found.value.base + size⟩ :: v.held, spare := spare}
      (List.nodup_finRange _) (fun j _ => tiled.cutCost room split within high j)
    refine ⟨fun _ b mem => Or.inr (Or.inr ?_), fun _ failed => ?_⟩
    · rw [search] at mem
      cases mem
      rw [some]
      exact enough.mp ⟨v', cut⟩
    · obtain ⟨r, eq⟩ := failed
      cases eq

theorem addCost (tiled : Tiled first stop v)
    (joins : Join p pre touched post joined) (proper : p.Proper) (room : stop + 2 ^ 20 ≤ 2 ^ 64)
    (split : v.spans (.free 0) = pre ++ (touched ++ post)) (low : first ≤ joined.base) (high : joined.endAddr ≤ stop)
    {i : Index} {u : View} (list : u.lists (.free i) = v.lists (.free i)) :
    Cost (addNeeds joined i (v.spans (.free i))) (addFrees joined i (v.spans (.free i))) u.spare
      ((u.addList i joined).map (fun r => r.2.spare)) := by
  have sep : Separated (pre ++ (touched ++ post)) := split ▸ tiled.separated
  have properJoined : joined.Proper := (joinSeparated joins proper sep).1 joined (by simp)
  unfold Extent.Proper at properJoined
  unfold View.addList
  simp only [alignUpIs i (by omega : joined.base + 2 ^ 20 ≤ 2 ^ 64), list]
  split_ifs with past
  · rw [addNeeds, addFrees, decide_eq_false (by omega), if_neg (by omega)]
    exact ⟨by simp, rfl⟩
  · have below := Nat.lt_of_not_le past
    rw [minusExact below.le (by omega), Option.map_map]
    rcases tiled.lists i with ⟨_, img⟩ | ⟨beyond, _⟩
    · rw [split] at img
      exact addListCost u.spare joins proper sep (by omega) img below
    · have mono := upMono i low
      omega

theorem addUnitSpare (tiled : Tiled first stop v)
    (joins : Join p pre touched post joined) (proper : p.Proper) (room : stop + 2 ^ 20 ≤ 2 ^ 64)
    (split : v.spans (.free 0) = pre ++ (touched ++ post)) (high : joined.endAddr ≤ stop) :
    Cost (addNeeds joined 0 (v.spans (.free 0))) (addFrees joined 0 (v.spans (.free 0))) v.spare
      ((v.addList 0 p).map (fun r => r.2.spare)) := by
  have sep : Separated (pre ++ (touched ++ post)) := split ▸ tiled.separated
  obtain ⟨⟨_, reach⟩, _⟩ := touchInside joins.touch proper (separatedAppend.mp (separatedAppend.mp sep).2.1).1.1
  rw [addFirst v proper (by omega), Option.map_map]
  exact addUnitCost v.spare joins proper sep (by omega) split

theorem addAllEnough (tiled : Tiled first stop v)
    (joins : Join p pre touched post joined) (proper : p.Proper) (room : stop + 2 ^ 20 ≤ 2 ^ 64)
    (split : v.spans (.free 0) = pre ++ (touched ++ post)) (low : first ≤ joined.base) (high : joined.endAddr ≤ stop) :
    (∃ v', v.add (List.finRange (mmMaxAlignment + 1)) p = (.ok (), v')) ↔
      Enough (fun j => addNeeds joined j (v.spans (.free j))) (fun j => addFrees joined j (v.spans (.free j)))
        v.spare.length (List.finRange (mmMaxAlignment + 1)) := by
  have sep : Separated (pre ++ (touched ++ post)) := split ▸ tiled.separated
  obtain ⟨⟨_, reach⟩, _⟩ := touchInside joins.touch proper (separatedAppend.mp (separatedAppend.mp sep).2.1).1.1
  have here := tiled.addUnitSpare joins proper room split high
  rw [List.finRange_succ]
  unfold View.add Enough
  cases out : v.addList 0 p with
  | none =>
    rw [out] at here
    simp [here.1, here.2]
  | some r =>
    obtain ⟨b, u⟩ := r
    rw [out] at here
    obtain ⟨finds, count⟩ := here
    rw [addFirst v proper (by omega)] at out
    obtain ⟨r, added, made⟩ := Option.map_eq_some_iff.mp out
    cases made
    obtain ⟨_, grown⟩ := addUnit joins proper sep (by omega) split added
    have next := @addEnough joined (fun j => addNeeds joined j (v.spans (.free j)))
      (fun j => addFrees joined j (v.spans (.free j))) ((List.finRange mmMaxAlignment).map Fin.succ)
      {v.setList (.free 0) r.nodes with spare := r.spare} ((List.nodup_finRange _).map (Fin.succ_injective _)) ?_ ?_
    · simp only at count
      have length : v.spare.length + addFrees joined 0 (v.spans (.free 0)) -
          (addNeeds joined 0 (v.spans (.free 0))).toNat = r.spare.length := by omega
      rw [length]
      simp only
      rw [grown, next]
      exact ⟨fun ok => ⟨fun need => List.length_pos_of_ne_nil (finds need), ok⟩, fun ok => ok.2⟩
    · intro i mem w list
      obtain ⟨j, _, rfl⟩ := List.mem_map.mp mem
      refine tiled.addCost joins proper room split low high (list.trans ?_)
      simp [View.setList]
    · intro i mem u u' b done
      obtain ⟨j, _, rfl⟩ := List.mem_map.mp mem
      exact addListFrame (Fin.succ_ne_zero j) done

theorem addStops {rest : List Index} {e : Errno} {v v' : View} (apart : (0 : Index) ∉ rest)
    (failed : v.add (0 :: rest) p = (.error e, v')) :
    (v.addList 0 p = none ∧ v' = v) ∨ ∃ b u, v.addList 0 p = some (b, u) ∧ v'.lists (.free 0) = u.lists (.free 0) := by
  have stays : ∀ {lists : List Index} {bounds : Span} {u u' : View}, (0 : Index) ∉ lists →
      u.add lists bounds = (.error e, u') → u'.lists (.free 0) = u.lists (.free 0) := by
    intro lists
    induction lists with
    | nil =>
      intro bounds u u' _ done
      cases done
    | cons i rest ih =>
      intro bounds u u' outside done
      rw [List.mem_cons, not_or] at outside
      unfold View.add at done
      split at done
      · cases done
        rfl
      · rename_i b w added
        rw [ih outside.2 done]
        exact (addListFrame (Ne.symm outside.1) added).2 0 outside.1
  unfold View.add at failed
  split at failed
  · rename_i none
    cases failed
    exact Or.inl ⟨none, rfl⟩
  · rename_i b u added
    exact Or.inr ⟨b, u, added, stays apart failed⟩

theorem takeBusyFind (base : Nat) (xs : List Node) :
    (spans xs).find? (fun b => b.base = base) = (takeBusy base xs).map (fun r => r.1.value) := by
  induction xs with
  | nil => rfl
  | cons n rest ih =>
    unfold takeBusy
    rw [spansCons]
    split_ifs with other
    · rw [List.find?_cons_of_neg (by simpa using Ne.symm other), ih, Option.map_map]
      rfl
    · rw [List.find?_cons_of_pos (by simpa using (not_not.mp other).symm)]
      rfl

theorem addChanges (tiled : Tiled first stop v) {p joined b : Span} {u : View}
    (joins : Join p pre touched post joined) (proper : p.Proper) (room : stop + 2 ^ 20 ≤ 2 ^ 64)
    (split : v.spans (.free 0) = pre ++ (touched ++ post)) (high : joined.endAddr ≤ stop)
    (added : v.addList 0 p = some (b, u)) : spans (u.lists (.free 0)) ≠ v.spans (.free 0) := by
  have sep : Separated (pre ++ (touched ++ post)) := split ▸ tiled.separated
  obtain ⟨⟨_, reach⟩, _⟩ := touchInside joins.touch proper (separatedAppend.mp (separatedAppend.mp sep).2.1).1.1
  rw [addFirst v proper (by omega)] at added
  obtain ⟨r, nodes, made⟩ := Option.map_eq_some_iff.mp added
  cases made
  obtain ⟨list, _⟩ := addUnit joins proper sep (by omega) split nodes
  have sum := joinTotal joins proper sep
  intro same
  have equal : total (pre ++ joined :: post) = total (pre ++ (touched ++ post)) := by
    rw [← list, ← split, ← same]
    simp [View.setList]
  unfold Extent.Proper at proper
  unfold Extent.length at sum
  omega

theorem putIntact (tiled : Tiled first stop v) (room : stop + 2 ^ 20 ≤ 2 ^ 64) (base : Nat) :
    ((∃ r, (v.put base).1 = .error r) → v.Same (v.put base).2) ↔ PutSafe v.spans v.spare.length base := by
  unfold PutSafe
  rw [show v.spans .busy = spans (v.lists .busy) from rfl, takeBusyFind]
  have step := v.putStep base
  generalize v.put base = out at step
  cases step with
  | notBusy none =>
    rw [none]
    exact ⟨fun _ b mem => by simp at mem, fun _ _ => ⟨rfl, rfl, rfl⟩⟩
  | addShort busy rest taken e v' failed =>
    obtain ⟨proper, pre, touched, post, joined, split, joins, low, high⟩ := tiled.releasing taken
    have grown : coalesced (v.spans (.free 0)) busy.value = joined := by
      rw [split]
      exact coalescedIs joins proper (split ▸ tiled.separated)
    have short : ¬ Enough _ _ v.spare.length (List.finRange (mmMaxAlignment + 1)) := fun ok => by
      obtain ⟨v₁, done⟩ := (tiled.addAllEnough joins proper room split low high).mpr ok
      rw [failed] at done
      cases done
    have here := tiled.addUnitSpare joins proper room split high
    simp only [taken, Option.map_some, Option.mem_def, Option.some.injEq, forall_eq', grown, short, or_false]
    rw [List.finRange_succ] at failed
    rcases addStops (by simp) failed with ⟨none, rfl⟩ | ⟨b, u, added, list⟩
    · rw [none] at here
      exact ⟨fun _ => ⟨by simp [here.2], here.1⟩, fun _ _ => ⟨rfl, rfl, rfl⟩⟩
    · constructor
      · intro intact
        have same : spans (v'.lists (.free 0)) = v.spans (.free 0) := congrFun (intact ⟨_, rfl⟩).spans (.free 0)
        rw [list] at same
        exact absurd same (tiled.addChanges joins proper room split high added)
      · rintro ⟨none, needs⟩
        rw [added] at here
        exact absurd (List.length_eq_zero_iff.mp none) (here.1 needs)
  | done busy rest taken v' added =>
    obtain ⟨proper, pre, touched, post, joined, split, joins, low, high⟩ := tiled.releasing taken
    refine ⟨fun _ b mem => Or.inr ?_, fun _ failed => ?_⟩
    · rw [taken] at mem
      cases mem
      rw [split, coalescedIs joins proper (split ▸ tiled.separated)]
      exact (tiled.addAllEnough joins proper room split low high).mp ⟨v', added⟩
    · obtain ⟨r, eq⟩ := failed
      cases eq

end Tiled

-- The list `slob_get` searches, if the alignment is a power of two.
def chosen (align : Nat) : Option Index :=
  if align &&& (align - 1) ≠ 0 then none else
  let align := if align = 0 then 1 else align
  some (if mmMaxAlignment < Nat.log2 align then Fin.last mmMaxAlignment
    else Fin.ofNat (mmMaxAlignment + 1) (Nat.log2 align))

theorem getChosen (v : View) (size align : Nat) :
    v.get size align = match chosen align with
      | none => (.error .badAlignment, v)
      | some i => v.getAlignment size i := by
  unfold View.get chosen
  simp only []
  split_ifs <;> rfl

def Mm.left (s : Mm) : Nat := s.pool.numBuffs - s.pool.current

def Mm.Safe (s : Mm) : Call → Prop
  | .get size align => ∀ i ∈ chosen align, GetSafe s.spans s.left size i
  | .put base => PutSafe s.spans s.left base

instance (s : Mm) (c : Call) : Decidable (s.Safe c) :=
  match c with
  | .get size align => inferInstanceAs (Decidable (∀ i ∈ chosen align, GetSafe s.spans s.left size i))
  | .put base => inferInstanceAs (Decidable (PutSafe s.spans s.left base))

structure Mm.Same (s s' : Mm) : Prop where
  spans : s'.spans = s.spans
  freeMemSize : s'.freeMemSize = s.freeMemSize
  current : s'.pool.current = s.pool.current

variable {origin : List Nat}

theorem Rep.leftEq {s : Mm} {v : View} (rep : Rep origin s v) : s.left = v.spare.length := by
  rw [← rep.remaining]
  simp [BufferPool.remaining, Mm.left]

theorem Rep.sameIff {s s' : Mm} {v v' : View} (rep : Rep origin s v) (rep' : Rep origin s' v') :
    s.Same s' ↔ v.Same v' := by
  have spans : s.spans = v.spans := funext rep.spansEq
  have spans' : s'.spans = v'.spans := funext rep'.spansEq
  have left := rep.leftEq
  have left' := rep'.leftEq
  have size := rep.size
  have size' := rep'.size
  have inside := rep.inside
  have inside' := rep'.inside
  unfold Mm.left at left left'
  constructor
  · rintro ⟨same, free, current⟩
    exact ⟨by rw [← spans, ← spans', same], by rw [← rep.freeMemSize, ← rep'.freeMemSize, free], by omega⟩
  · rintro ⟨same, free, spare⟩
    exact ⟨by rw [spans, spans', same], by rw [rep.freeMemSize, rep'.freeMemSize, free], by omega⟩

namespace Tiled
variable {first stop : Nat} {v v' : View}

theorem same (tiled : Tiled first stop v) (same : v.Same v') : Tiled first stop v' := by
  obtain ⟨separated, proper, sorted, tile, lists, freeMemSize⟩ := tiled
  obtain ⟨spans, free, _⟩ := same
  refine ⟨by rw [spans]; exact separated, by rw [spans]; exact proper, by rw [spans]; exact sorted,
    by rw [spans]; exact tile, fun i => ?_, by rw [free, spans]; exact freeMemSize⟩
  have here := lists i
  have list : Slob.spans (v'.lists (.free i)) = Slob.spans (v.lists (.free i)) := congrFun spans (.free i)
  unfold ListOk at here ⊢
  rw [spans, list]
  exact here

theorem returnedZero (tiled : Tiled first stop v) (room : stop + 2 ^ 20 ≤ 2 ^ 64) (positive : 0 < first) {c : Call}
    (legal : c.Legal) : returned (v.call c).1 = 0 ↔ ∃ r, (v.call c).1 = .error r := by
  constructor
  · intro zero
    cases out : (v.call c).1 with
    | error r => exact ⟨r, rfl⟩
    | ok a =>
      exfalso
      rw [out, returned] at zero
      subst zero
      cases c with
      | get size align =>
        simp only [View.call, getChosen] at out
        split at out
        · cases out
        · rename_i i _
          obtain ⟨⟨f, inside, start, _⟩, _⟩ := tiled.granted room legal (Prod.ext out rfl)
          have low := (tiled.freeInside inside).1
          have above := leUp i f.base
          omega
      | put base =>
        have step := v.putStep base
        simp only [View.call] at out
        generalize v.put base = result at step out
        cases step with
        | notBusy none => cases out
        | addShort busy rest taken e v' failed => cases out
        | done busy rest taken v' added =>
          have mem : busy.value ∈ v.spans .busy :=
            ((Kept.takeBusyPerm taken).map Node.value).mem_iff.mpr List.mem_cons_self
          have proper := tiled.proper _ mem
          have high := (tiled.inside (List.mem_append_left _ mem) proper).2
          unfold Extent.Proper at proper
          injection out with zero
          rw [minusExact proper.le (by omega)] at zero
          omega
  · rintro ⟨r, eq⟩
    rw [eq]
    rfl

theorem callIntact {s : Mm} (tiled : Tiled first stop v) (room : stop + 2 ^ 20 ≤ 2 ^ 64)
    (rep : Rep origin s v) {c : Call} (legal : c.Legal) :
    ((∃ r, (v.call c).1 = .error r) → v.Same (v.call c).2) ↔ s.Safe c := by
  have spans : s.spans = v.spans := funext rep.spansEq
  cases c with
  | get size align =>
    simp only [View.call, Mm.Safe, getChosen, spans, rep.leftEq]
    cases out : chosen align with
    | none => exact ⟨fun _ i mem => by simp at mem, fun _ _ => ⟨rfl, rfl, rfl⟩⟩
    | some i =>
      simp only [Option.mem_def, Option.some.injEq, forall_eq']
      exact tiled.getIntact room i legal
  | put base =>
    simp only [View.call, Mm.Safe, spans, rep.leftEq]
    exact tiled.putIntact room base

end Tiled

theorem failureLeavesIntact {memory : Nat → SlobBlock} {base size : Nat} {boot boot' : InitialMemMng}
    {pool : BufferPool} {start s : Mm} (fresh : Fresh pool) (positive : 0 < base ∧ 0 < size)
    (room : base + size + 2 ^ 20 ≤ 2 ^ 64)
    (init : slobInit memory base size boot pool = some (.ok start, boot'))
    (reached : Reached (fun s c => c.Legal ∧ s.Safe c) start s) (c : Call) (legal : c.Legal) :
    (returned (s.call c).1 = 0 → s.Same (s.call c).2) ↔ s.Safe c := by
  obtain ⟨v₀, done, rep₀⟩ := slobInitFollows fresh init
  obtain ⟨v, rep, tiled⟩ := reachedView (Tiled base (base + size)) rep₀ (initTiled room positive.2 done)
    (fun s v c rep tiled ok => by
      by_cases failed : ∃ r, (v.call c).1 = .error r
      · exact tiled.same ((tiled.callIntact room rep ok.1).mpr ok.2 failed)
      · exact callTiled tiled room ok.1 (fun short => failed ⟨_, short⟩)) reached
  obtain ⟨result, rep'⟩ := callFollows c rep
  rw [result, rep.sameIff rep', tiled.returnedZero room positive.1 legal]
  exact tiled.callIntact room rep legal

theorem failureLeavesIntactSmall : ∃ start s, Mm.initial 4097 1000 22 = some start ∧
    Reached (fun s c => c.Legal ∧ s.Safe c) start s ∧ returned (s.call (.get 10 64)).1 = 0 ∧
      s.Same (s.call (.get 10 64)).2 := by
  obtain ⟨start, s, init, reached, zero, safe⟩ := @runReaches 4097 1000 22 (fun s c => c.Legal ∧ s.Safe c) _
    (fun s => returned (s.call (.get 10 64)).1 = 0 ∧ s.Safe (.get 10 64)) _
    [.get 10 64, .put 4097] (by decide)
  obtain ⟨boot, done⟩ := initialDone init
  exact ⟨start, s, init, reached, zero,
    (failureLeavesIntact (by decide) ⟨by decide, by decide⟩ (by decide) done reached
      (.get 10 64) (by decide)).mpr safe zero⟩

theorem failedPutLeavesBlockFree : ∃ start s, Mm.initial 4096 1000 25 = some start ∧
    Reached (fun _ c => c.Legal) start s ∧ returned (s.call (.put 4196)).1 = 0 ∧
      ⟨4196, 4296⟩ ∈ (s.call (.put 4196)).2.spans .busy ∧
      ⟨4196, 4296⟩ ∈ (s.call (.put 4196)).2.spans (.free 0) ∧ ⟨4196, 4296⟩ ∉ s.spans (.free 0) ∧
      (s.call (.put 4196)).2.pool.current ≠ s.pool.current :=
  runReaches [.get 100 1, .get 100 1, .get 100 1] (by decide +kernel)

end Flexbuild.Slob
