import Flexbuild.SlobConservation

/-! What one free list looks like, as a function of the free memory. The list of
alignment `2 ^ i` has for every free interval `[b, e)` the block `[up i b, e)`; it may
lack a block that is smaller than the alignment. `cut_free` and `add_free` keep this
relation, list by list, when the free memory loses or gains an interval. -/
namespace Flexbuild.Slob
open Words BootMemory Chains Intervals

def up (i : Index) (b : Nat) : Nat := roundUp b (alignment i)

def image (i : Index) (f : Span) : Span := ⟨up i f.base, f.endAddr⟩

inductive Image (i : Index) : List Span → List Span → Prop where
  | nil : Image i [] []
  | keep {f : Span} {fs ys : List Span} (proper : up i f.base < f.endAddr) (rest : Image i fs ys) :
      Image i (f :: fs) (image i f :: ys)
  | skip {f : Span} {fs ys : List Span} (small : f.endAddr < up i f.base + alignment i) (rest : Image i fs ys) :
      Image i (f :: fs) ys

def spans (xs : List Node) : List Span := xs.map Node.value

theorem leUp (i : Index) (b : Nat) : b ≤ up i b := leRoundUp b (alignmentPos i)

theorem upMono (i : Index) {b c : Nat} (le : b ≤ c) : up i b ≤ up i c := roundUpMono (alignmentPos i) le

theorem upZero (b : Nat) : up 0 b = b := roundUpOne b

theorem alignUpIs (i : Index) {b : Nat} (room : b + 2 ^ 20 ≤ 2 ^ 64) : alignUp 64 b (alignment i) = up i b := by
  have le := alignmentLe i
  have bound := i.isLt
  unfold mmMaxAlignment at bound
  unfold alignment at le
  exact alignUpExact (by omega) (by omega)

variable {i : Index}

theorem imageAppend {fs gs ys : List Span} :
    Image i (fs ++ gs) ys ↔ ∃ left right, ys = left ++ right ∧ Image i fs left ∧ Image i gs right := by
  constructor
  · intro h
    induction fs generalizing ys with
    | nil => exact ⟨[], ys, rfl, .nil, h⟩
    | cons f fs ih =>
      cases h with
      | keep proper rest =>
        obtain ⟨left, right, rfl, here, later⟩ := ih rest
        exact ⟨_ :: left, right, rfl, .keep proper here, later⟩
      | skip small rest =>
        obtain ⟨left, right, rfl, here, later⟩ := ih rest
        exact ⟨left, right, rfl, .skip small here, later⟩
  · rintro ⟨left, right, rfl, here, later⟩
    induction here with
    | nil => exact later
    | keep proper _ ih => exact .keep proper ih
    | skip small _ ih => exact .skip small ih

variable {fs ys : List Span}

theorem imageMem {y : Span} (h : Image i fs ys) (mem : y ∈ ys) :
    ∃ f ∈ fs, y = image i f ∧ up i f.base < f.endAddr := by
  induction h with
  | nil => simp at mem
  | keep proper _ ih =>
    rcases List.mem_cons.mp mem with rfl | later
    · exact ⟨_, List.mem_cons_self, rfl, proper⟩
    · obtain ⟨f, inside, same, below⟩ := ih later
      exact ⟨f, List.mem_cons_of_mem _ inside, same, below⟩
  | skip _ _ ih =>
    obtain ⟨f, inside, same, below⟩ := ih mem
    exact ⟨f, List.mem_cons_of_mem _ inside, same, below⟩

theorem imageLarge {f : Span} (h : Image i fs ys) (mem : f ∈ fs)
    (large : up i f.base + alignment i ≤ f.endAddr) : image i f ∈ ys := by
  induction h with
  | nil => simp at mem
  | keep _ _ ih =>
    rcases List.mem_cons.mp mem with rfl | later
    · exact List.mem_cons_self
    · exact List.mem_cons_of_mem _ (ih later)
  | skip small _ ih =>
    rcases List.mem_cons.mp mem with rfl | later
    · omega
    · exact ih later

theorem imageUnit (h : Image 0 fs ys) (proper : ∀ f ∈ fs, f.Proper) : ys = fs := by
  induction h with
  | nil => rfl
  | keep _ _ ih =>
    rw [ih (fun g mem => proper g (List.mem_cons_of_mem _ mem)), image, upZero]
  | skip small _ _ =>
    have here := proper _ List.mem_cons_self
    rw [upZero] at small
    unfold Extent.Proper at here
    simp only [alignment, Fin.val_zero, pow_zero] at small
    omega

theorem imageNone (small : ∀ f ∈ fs, f.endAddr < up i f.base + alignment i) : Image i fs [] := by
  induction fs with
  | nil => exact .nil
  | cons f fs ih =>
    exact .skip (small f List.mem_cons_self) (ih (fun g mem => small g (List.mem_cons_of_mem _ mem)))

theorem spansCons (n : Node) (xs : List Node) : spans (n :: xs) = n.value :: spans xs := rfl

theorem spansAppend (xs ys : List Node) : spans (xs ++ ys) = spans xs ++ spans ys := List.map_append

section cut
variable {holdBase holdEnd : Nat} {i : Index}

theorem cutNodesClear {xs : List Node} (spare : List Nat) (proper : holdBase < holdEnd)
    (clear : ∀ n ∈ xs, n.value.endAddr < holdEnd ∨ holdEnd ≤ n.value.base) :
    cutNodes holdBase holdEnd i xs spare = some (xs, spare) := by
  induction xs with
  | nil => rfl
  | cons n rest ih =>
    have here := clear n List.mem_cons_self
    unfold cutNodes
    simp only []
    rw [if_neg (by omega), if_neg (by omega), ih (fun k mem => clear k (List.mem_cons_of_mem _ mem))]
    rfl

theorem cutNodesPast {pre : List Node} (xs : List Node) (spare : List Nat)
    (before : ∀ n ∈ pre, n.value.endAddr < holdEnd) :
    cutNodes holdBase holdEnd i (pre ++ xs) spare =
      (cutNodes holdBase holdEnd i xs spare).map (fun r => (pre ++ r.1, r.2)) := by
  induction pre with
  | nil => simp
  | cons n rest ih =>
    have here := before n List.mem_cons_self
    rw [List.cons_append]
    conv_lhs => unfold cutNodes
    simp only []
    rw [if_neg (by omega), if_neg (by omega), ih (fun k mem => before k (List.mem_cons_of_mem _ mem)),
      Option.map_map]
    rfl

end cut

section pieces
variable {i : Index} {hold f : Span}

theorem imageLeftKeep (below : up i f.base < hold.base) :
    Image i (if f.base < hold.base then [⟨f.base, hold.base⟩] else []) [⟨up i f.base, hold.base⟩] := by
  rw [if_pos ((leUp i f.base).trans_lt below)]
  exact .keep below .nil

theorem imageLeftSkip (small : hold.base < up i f.base + alignment i) :
    Image i (if f.base < hold.base then [⟨f.base, hold.base⟩] else []) [] := by
  apply imageNone
  intro g mem
  simp only [List.mem_ite_nil_right, List.mem_singleton] at mem
  obtain ⟨_, rfl⟩ := mem
  exact small

theorem imageRightKeep (below : up i hold.endAddr < f.endAddr) :
    Image i (if hold.endAddr < f.endAddr then [⟨hold.endAddr, f.endAddr⟩] else [])
      [⟨up i hold.endAddr, f.endAddr⟩] := by
  rw [if_pos ((leUp i hold.endAddr).trans_lt below)]
  exact .keep below .nil

theorem imageRightSkip (small : f.endAddr < up i hold.endAddr + alignment i) :
    Image i (if hold.endAddr < f.endAddr then [⟨hold.endAddr, f.endAddr⟩] else []) [] := by
  apply imageNone
  intro g mem
  simp only [List.mem_ite_nil_right, List.mem_singleton] at mem
  obtain ⟨_, rfl⟩ := mem
  exact small

theorem cutNodesHere {n : Node} {rest xs' : List Node} {spare spare' : List Nat} (within : Within hold f)
    (room : f.endAddr + 2 ^ 20 ≤ 2 ^ 64) (value : n.value = image i f) (proper : up i f.base < f.endAddr)
    (later : ∀ k ∈ rest, hold.endAddr ≤ k.value.base)
    (done : cutNodes hold.base hold.endAddr i (n :: rest) spare = some (xs', spare')) :
    ∃ new, spans xs' = new ++ spans rest ∧ Image i (pieces hold f) new := by
  have low := within.low
  have holds := within.proper
  have high := within.high
  have above := leUp i f.base
  have pos := alignmentPos i
  unfold Extent.Proper at holds
  unfold cutNodes at done
  simp only [alignUpIs i (by omega : hold.endAddr + 2 ^ 20 ≤ 2 ^ 64), value, image] at done
  have size : up i hold.endAddr < f.endAddr →
      minus 64 f.endAddr (up i hold.endAddr) = f.endAddr - up i hold.endAddr :=
    fun lt => minusExact lt.le (by omega)
  unfold pieces
  split_ifs at done with inside drop beyond left right right
  · cases done
    refine ⟨[], rfl, imageAppend.mpr ⟨[], [], rfl, imageLeftSkip (by omega), imageRightSkip ?_⟩⟩
    rcases drop with past | ⟨lt, small⟩
    · omega
    · rw [size lt] at small
      omega
  · cases done
    refine ⟨[⟨up i hold.endAddr, f.endAddr⟩], rfl,
      imageAppend.mpr ⟨[], _, rfl, imageLeftSkip (by omega), imageRightKeep ?_⟩⟩
    simp only [not_or, not_le] at drop
    exact drop.1
  · cases spare with
    | nil => cases done
    | cons new spare =>
      cases done
      have whole : wrap 64 (up i hold.endAddr + minus 64 f.endAddr (up i hold.endAddr)) = f.endAddr :=
        wrapAddMinus (by omega) (by omega)
      refine ⟨[⟨up i f.base, hold.base⟩, ⟨up i hold.endAddr, f.endAddr⟩], ?_,
        imageAppend.mpr ⟨[_], [_], rfl, imageLeftKeep beyond.1, imageRightKeep right.1⟩⟩
      simp only [spans, List.map_cons, whole, List.cons_append, List.nil_append]
  · cases done
    refine ⟨[⟨up i f.base, hold.base⟩], rfl,
      imageAppend.mpr ⟨[_], [], rfl, imageLeftKeep beyond.1, imageRightSkip ?_⟩⟩
    rcases Nat.lt_or_ge (up i hold.endAddr) f.endAddr with lt | ge
    · rw [size lt] at right
      omega
    · omega
  · cases done
    rw [minusExact beyond.1.le (by omega)] at left
    exact ⟨[⟨up i hold.endAddr, f.endAddr⟩], rfl,
      imageAppend.mpr ⟨[], [_], rfl, imageLeftSkip (by omega), imageRightKeep right.1⟩⟩
  · cases done
    rw [minusExact beyond.1.le (by omega)] at left
    refine ⟨[], rfl, imageAppend.mpr ⟨[], [], rfl, imageLeftSkip (by omega), imageRightSkip ?_⟩⟩
    rcases Nat.lt_or_ge (up i hold.endAddr) f.endAddr with lt | ge
    · rw [size lt] at right
      omega
    · omega
  · -- the cut ends before the block starts, so the block belongs to what remains on its right
    rw [cutNodesClear spare holds (fun k mem => Or.inr (later k mem))] at done
    cases done
    have same : up i hold.endAddr = up i f.base :=
      roundUpBetween pos (by omega) (by change hold.endAddr ≤ up i f.base; omega)
    refine ⟨[image i f], by simp [spans, value], imageAppend.mpr ⟨[], [_], rfl, imageLeftSkip (by omega), ?_⟩⟩
    rw [image, ← same]
    exact imageRightKeep (by omega)

end pieces

variable {xs : List Node}

theorem cutSplit {hold f : Span} {pre post : List Span} (within : Within hold f)
    (sep : Separated (pre ++ f :: post)) (img : Image i (pre ++ f :: post) (spans xs)) :
    ∃ xp xq, xs = xp ++ xq ∧ Image i pre (spans xp) ∧ (∀ n ∈ xp, n.value.endAddr < hold.endAddr) ∧
      ((∃ n rest, xq = n :: rest ∧ n.value = image i f ∧ up i f.base < f.endAddr ∧ Image i post (spans rest) ∧
          ∀ k ∈ rest, hold.endAddr ≤ k.value.base) ∨
        f.endAddr < up i f.base + alignment i ∧ Image i post (spans xq) ∧
          ∀ k ∈ xq, hold.endAddr ≤ k.value.base) := by
  obtain ⟨_, middle, earlier⟩ := separatedAppend.mp sep
  obtain ⟨_, far, _⟩ := separatedCons.mp middle
  obtain ⟨low, proper, high⟩ := within
  unfold Extent.Proper at proper
  obtain ⟨left, right, split, imgPre, imgRest⟩ := imageAppend.mp img
  obtain ⟨xp, xq, rfl, rfl, rfl⟩ := List.map_eq_append_iff.mp split
  have past : ∀ n ∈ xp, n.value.endAddr < hold.endAddr := by
    intro n mem
    obtain ⟨g, inside, same, _⟩ := imageMem imgPre (List.mem_map_of_mem mem)
    have near := earlier g inside f List.mem_cons_self
    rw [same]
    simp only [image]
    omega
  have clear : ∀ {zs : List Node}, Image i post (spans zs) → ∀ k ∈ zs, hold.endAddr ≤ k.value.base := by
    intro zs img k mem
    obtain ⟨g, inside, same, _⟩ := imageMem img (List.mem_map_of_mem mem)
    have away := far g inside
    have above := leUp i g.base
    rw [same]
    simp only [image]
    omega
  refine ⟨xp, xq, rfl, imgPre, past, ?_⟩
  generalize whole : xq.map Node.value = zs at imgRest
  cases imgRest with
  | keep lt rest =>
    obtain ⟨n, xs, rfl, value, rfl⟩ := List.map_eq_cons_iff.mp whole
    exact Or.inl ⟨n, xs, rfl, value, lt, rest, clear rest⟩
  | skip small rest =>
    subst whole
    exact Or.inr ⟨small, rest, clear rest⟩

theorem cutImage {hold f : Span} {pre post : List Span} {xs xs' : List Node} {spare spare' : List Nat}
    (within : Within hold f) (sep : Separated (pre ++ f :: post)) (room : f.endAddr + 2 ^ 20 ≤ 2 ^ 64)
    (before : Image i (pre ++ f :: post) (spans xs))
    (done : cutNodes hold.base hold.endAddr i xs spare = some (xs', spare')) :
    Image i (pre ++ (pieces hold f ++ post)) (spans xs') := by
  obtain ⟨xp, xq, rfl, imgPre, past, block⟩ := cutSplit within sep before
  rw [cutNodesPast _ _ past] at done
  obtain ⟨⟨ys, _⟩, here, made⟩ := Option.map_eq_some_iff.mp done
  cases made
  rw [spansAppend]
  refine imageAppend.mpr ⟨_, _, rfl, imgPre, ?_⟩
  rcases block with ⟨n, rest, rfl, value, lt, imgPost, later⟩ | ⟨small, imgPost, later⟩
  · obtain ⟨new, same, img⟩ := cutNodesHere within room value lt later here
    exact imageAppend.mpr ⟨new, _, same, img, imgPost⟩
  · rw [cutNodesClear spare within.proper (fun k mem => Or.inr (later k mem))] at here
    cases here
    refine imageAppend.mpr ⟨[], _, rfl, imageNone ?_, imgPost⟩
    intro p mem
    obtain ⟨_, start, stop⟩ := piecesInside within mem
    have mono := upMono i start
    omega

inductive Meets (a e : Nat) : List Span → Span → Prop where
  | none : Meets a e [] ⟨a, e⟩
  | left {b m : Nat} (low : b ≤ a) (reach : a ≤ m) (inner : m < e) : Meets a e [⟨b, m⟩] ⟨b, e⟩
  | right {m d : Nat} (near : m ≤ e) (outer : e ≤ d) : Meets a e [⟨m, d⟩] ⟨min a m, d⟩
  | both {b m k d : Nat} (low : b ≤ a) (reach : a ≤ m) (inner : m < e) (near : k ≤ e) (outer : e ≤ d) :
      Meets a e [⟨b, m⟩, ⟨k, d⟩] ⟨b, d⟩

section add
variable {i : Index} {a e size : Nat} {joined : Span}

-- The list after the piece was added: the joined block is there unless it is too
-- small, and `update_boundaries` sees it unless the piece met no block.
structure Gained (i : Index) (a e : Nat) (joined : Span) (before after : List Span) (r : Added) : Prop where
  nodes : spans r.nodes = before ++ joined :: after ∨
    spans r.nodes = before ++ after ∧ joined.endAddr < joined.base + alignment i
  merged : joined.endAddr < joined.base + alignment i ∨ r.merged = some joined ∨
    r.merged = none ∧ joined = ⟨a, e⟩

theorem absorbGained {n : Node} (rest : List Node) (spare : List Nat) (below : a < e) (sized : size = e - a)
    (near : n.value.base ≤ e) (outer : e ≤ n.value.endAddr) (small : n.value.endAddr < 2 ^ 64) :
    Gained i a e ⟨min a n.value.base, n.value.endAddr⟩ [] (spans rest) (absorbNodes i a e size n rest spare) := by
  have grown : (if a < n.value.base ∧ n.value.base ≤ e then (⟨a, n.value.endAddr⟩ : Span) else n.value) =
      ⟨min a n.value.base, n.value.endAddr⟩ := by
    split_ifs with grow
    · rw [Nat.min_eq_left grow.1.le]
    · rw [Nat.min_eq_right (by omega)]
  unfold absorbNodes
  simp only [grown]
  rw [minusExact (by omega) small]
  split_ifs with tiny large
  · omega
  · exact ⟨Or.inr ⟨rfl, by simp only; omega⟩, Or.inl (by simp only; omega)⟩
  · exact ⟨Or.inl rfl, Or.inr (Or.inl rfl)⟩

theorem eliminateClear {n : Node} {rest : List Node} (spare : List Nat)
    (clear : ∀ k ∈ rest, e < k.value.base ∧ k.value.base ≤ k.value.endAddr) :
    eliminateNodes e n rest spare = (⟨n.addr, n.value.base, e⟩, rest, spare) := by
  cases rest with
  | nil => rfl
  | cons k rest =>
    obtain ⟨far, le⟩ := clear k List.mem_cons_self
    unfold eliminateNodes
    rw [if_neg (by omega), if_pos far]

theorem addNodesHere {mid post : List Node} {spare : List Nat} {r : Added} (below : a < e) (sized : size = e - a)
    (meets : Meets a e (spans mid) joined) (small : joined.endAddr < 2 ^ 64)
    (clear : ∀ k ∈ post, e < k.value.base ∧ k.value.base ≤ k.value.endAddr)
    (done : addNodes i a e size (mid ++ post) spare = some r) :
    Gained i a e joined [] (spans post) r := by
  generalize shape : spans mid = ys at meets
  cases meets with
  | none =>
    obtain rfl : mid = [] := List.map_eq_nil_iff.mp shape
    have piece : wrap 64 (a + size) = e := by
      rw [sized, Nat.add_sub_cancel' below.le]
      exact wrapSmall small
    rw [List.nil_append] at done
    cases post with
    | nil =>
      unfold addNodes at done
      split_ifs at done with large
      · cases spare with
        | nil => cases done
        | cons new spare =>
          cases done
          exact ⟨Or.inl (by simp [spans, piece]), Or.inr (Or.inr ⟨rfl, rfl⟩)⟩
      · cases done
        exact ⟨Or.inr ⟨rfl, by simp only; omega⟩, Or.inl (by simp only; omega)⟩
    | cons k post =>
      obtain ⟨far, le⟩ := clear k List.mem_cons_self
      unfold addNodes at done
      rw [if_pos (by omega), if_neg (by omega), if_pos far] at done
      cases spare with
      | nil => cases done
      | cons new spare =>
        cases done
        exact ⟨Or.inl (by simp [spans, piece]), Or.inr (Or.inr ⟨rfl, rfl⟩)⟩
  | left low reach inner =>
    obtain ⟨n, rest, rfl, value, none⟩ := List.map_eq_cons_iff.mp shape
    obtain rfl : rest = [] := List.map_eq_nil_iff.mp none
    rw [List.cons_append, List.nil_append] at done
    unfold addNodes at done
    rw [value, if_pos reach, if_pos inner, eliminateClear _ clear, value] at done
    cases done
    have gained := absorbGained (i := i) (n := ⟨n.addr, _, e⟩) post spare below sized
      (low.trans below.le) le_rfl small
    rwa [Nat.min_eq_right low] at gained
  | right near outer =>
    obtain ⟨n, rest, rfl, value, none⟩ := List.map_eq_cons_iff.mp shape
    obtain rfl : rest = [] := List.map_eq_nil_iff.mp none
    rw [List.cons_append, List.nil_append] at done
    unfold addNodes at done
    rw [value, if_pos (by simp only; omega), if_neg (by simp only; omega), if_neg (by simp only; omega)] at done
    cases done
    have gained := absorbGained (i := i) (n := n) post spare below sized (by rw [value]; exact near)
      (by rw [value]; exact outer) (by rw [value]; exact small)
    rwa [value] at gained
  | both low reach inner near outer =>
    obtain ⟨n, rest, rfl, value, one⟩ := List.map_eq_cons_iff.mp shape
    obtain ⟨k, rest, rfl, value', none⟩ := List.map_eq_cons_iff.mp one
    obtain rfl : rest = [] := List.map_eq_nil_iff.mp none
    rw [List.cons_append, List.cons_append, List.nil_append] at done
    unfold addNodes eliminateNodes at done
    rw [value, value', if_pos reach, if_pos inner, if_neg (by simp only; omega),
      if_neg (by simp only; omega)] at done
    cases done
    have gained := absorbGained (i := i) (n := ⟨n.addr, _, _⟩) post (k.addr :: spare) below sized
      (low.trans below.le) outer small
    rwa [Nat.min_eq_right low] at gained

theorem addNodesPast {pre : List Node} (xs : List Node) (spare : List Nat)
    (before : ∀ n ∈ pre, n.value.endAddr < a) :
    addNodes i a e size (pre ++ xs) spare =
      (addNodes i a e size xs spare).map (fun r => {r with nodes := pre ++ r.nodes}) := by
  induction pre with
  | nil => simp
  | cons n rest ih =>
    have here := before n List.mem_cons_self
    rw [List.cons_append]
    conv_lhs => unfold addNodes
    rw [if_neg (by omega), ih (fun k mem => before k (List.mem_cons_of_mem _ mem)), Option.map_map]
    rfl

theorem addNodesGained {before mid after : List Span} {spare : List Nat} {r : Added}
    (below : a < e) (sized : size = e - a) (split : spans xs = before ++ (mid ++ after))
    (earlier : ∀ y ∈ before, y.endAddr < a) (meets : Meets a e mid joined) (small : joined.endAddr < 2 ^ 64)
    (clear : ∀ y ∈ after, e < y.base ∧ y.base ≤ y.endAddr) (done : addNodes i a e size xs spare = some r) :
    Gained i a e joined before after r := by
  obtain ⟨pre, rest, rfl, rfl, inner⟩ := List.map_eq_append_iff.mp split
  obtain ⟨xm, post, rfl, rfl, rfl⟩ := List.map_eq_append_iff.mp inner
  rw [addNodesPast _ _ (fun n mem => earlier _ (List.mem_map_of_mem mem))] at done
  obtain ⟨r, here, made⟩ := Option.map_eq_some_iff.mp done
  cases made
  obtain ⟨nodes, merged⟩ := addNodesHere below sized meets small
    (fun k mem => clear _ (List.mem_map_of_mem mem)) here
  refine ⟨?_, merged⟩
  rw [spansAppend]
  rcases nodes with same | ⟨same, tiny⟩
  · exact Or.inl (by rw [same]; rfl)
  · exact Or.inr ⟨by rw [same]; rfl, tiny⟩

end add

section joined
variable {i : Index} {p joined : Span} {pre touched post ys : List Span}

theorem touchInside (touch : Touch p touched joined) (proper : p.Proper) (propers : ∀ f ∈ touched, f.Proper) :
    (joined.base ≤ p.base ∧ p.endAddr ≤ joined.endAddr) ∧
      ∀ f ∈ touched, joined.base ≤ f.base ∧ f.endAddr ≤ joined.endAddr := by
  unfold Extent.Proper at proper propers
  cases touch with
  | alone => exact ⟨⟨le_rfl, le_rfl⟩, by simp⟩
  | left b =>
    simp only [List.mem_singleton, forall_eq] at propers ⊢
    omega
  | right e =>
    simp only [List.mem_singleton, forall_eq] at propers ⊢
    omega
  | both b e =>
    simp only [List.mem_cons, List.not_mem_nil, or_false, forall_eq_or_imp, forall_eq] at propers ⊢
    omega

theorem touchMeets (touch : Touch p touched joined) (proper : p.Proper) (propers : ∀ f ∈ touched, f.Proper) :
    Meets p.base p.endAddr touched joined := by
  unfold Extent.Proper at proper propers
  cases touch with
  | alone => exact .none
  | left b => exact .left (propers _ List.mem_cons_self).le le_rfl proper
  | right e =>
    have meets := Meets.right (a := p.base) (e := p.endAddr) le_rfl (propers _ List.mem_cons_self).le
    rwa [Nat.min_eq_left proper.le] at meets
  | both b e =>
    exact .both (propers _ List.mem_cons_self).le le_rfl proper le_rfl
      (propers _ (List.mem_cons_of_mem _ List.mem_cons_self)).le

theorem touchMeetsImage (touch : Touch p touched joined) (proper : p.Proper) (img : Image i touched ys)
    (propers : ∀ f ∈ touched, f.Proper) : Meets (up i joined.base) joined.endAddr ys (image i joined) := by
  unfold Extent.Proper at proper propers
  cases touch with
  | alone =>
    cases img
    exact .none
  | left b =>
    cases img with
    | keep lt rest =>
      cases rest
      exact .left le_rfl lt.le proper
    | skip _ rest =>
      cases rest
      exact .none
  | right e =>
    cases img with
    | keep lt rest =>
      cases rest
      have meets := Meets.right (a := up i p.base) (m := up i p.endAddr) lt.le le_rfl
      rwa [Nat.min_eq_left (upMono i proper.le)] at meets
    | skip _ rest =>
      cases rest
      exact .none
  | both b e =>
    have low := propers ⟨b, p.base⟩ List.mem_cons_self
    have high := propers ⟨p.endAddr, e⟩ (by simp)
    simp only at low high
    cases img with
    | keep lt rest =>
      cases rest with
      | keep lt' rest =>
        cases rest
        exact .both le_rfl lt.le (proper.trans high) lt'.le le_rfl
      | skip _ rest =>
        cases rest
        exact .left le_rfl lt.le (proper.trans high)
    | skip _ rest =>
      cases rest with
      | keep lt rest =>
        cases rest
        have meets := Meets.right (a := up i b) (m := up i p.endAddr) lt.le le_rfl
        rwa [Nat.min_eq_left (upMono i (low.trans proper).le)] at meets
      | skip _ rest =>
        cases rest
        exact .none

theorem addSplit (join : Join p pre touched post joined) (proper : p.Proper)
    (sep : Separated (pre ++ (touched ++ post))) (img : Image i (pre ++ (touched ++ post)) ys) :
    ∃ left mid right, ys = left ++ (mid ++ right) ∧ Image i pre left ∧ Image i touched mid ∧ Image i post right ∧
      (∀ y ∈ left, y.base ≤ y.endAddr ∧ y.endAddr < up i joined.base) ∧
      (∀ y ∈ right, joined.endAddr < y.base ∧ y.base ≤ y.endAddr) := by
  obtain ⟨_, inner, near⟩ := separatedAppend.mp (joinSeparated join proper sep)
  obtain ⟨_, far, _⟩ := separatedCons.mp inner
  obtain ⟨left, rest, split, imgPre, imgRest⟩ := imageAppend.mp img
  obtain ⟨mid, right, rfl, imgMid, imgPost⟩ := imageAppend.mp imgRest
  refine ⟨left, mid, right, split, imgPre, imgMid, imgPost, ?_, ?_⟩
  · intro y mem
    obtain ⟨g, inside, rfl, lt⟩ := imageMem imgPre mem
    exact ⟨lt.le, (near g inside joined List.mem_cons_self).trans_le (leUp i joined.base)⟩
  · intro y mem
    obtain ⟨g, inside, rfl, lt⟩ := imageMem imgPost mem
    exact ⟨(far g inside).trans_le (leUp i g.base), lt.le⟩

theorem addImage {spare : List Nat} {r : Added} (join : Join p pre touched post joined)
    (proper : p.Proper) (sep : Separated (pre ++ (touched ++ post))) (small : joined.endAddr < 2 ^ 64)
    (img : Image i (pre ++ (touched ++ post)) (spans xs)) (below : up i joined.base < joined.endAddr)
    (done : addNodes i (up i joined.base) joined.endAddr (joined.endAddr - up i joined.base) xs spare = some r) :
    Image i (pre ++ joined :: post) (spans r.nodes) := by
  have propers := (separatedAppend.mp (separatedAppend.mp sep).2.1).1.1
  obtain ⟨left, mid, right, split, imgPre, imgMid, imgPost, earlier, clear⟩ := addSplit join proper sep img
  have gained := addNodesGained below rfl split (fun y mem => (earlier y mem).2)
    (touchMeetsImage join.touch proper imgMid propers) small clear done
  rcases gained.nodes with same | ⟨same, tiny⟩
  · rw [same]
    exact imageAppend.mpr ⟨_, _, rfl, imgPre, .keep below imgPost⟩
  · rw [same]
    exact imageAppend.mpr ⟨_, _, rfl, imgPre, .skip tiny imgPost⟩

theorem skipImage (join : Join p pre touched post joined) (proper : p.Proper)
    (sep : Separated (pre ++ (touched ++ post))) (img : Image i (pre ++ (touched ++ post)) ys)
    (past : joined.endAddr ≤ up i joined.base) : Image i (pre ++ joined :: post) ys := by
  have propers := (separatedAppend.mp (separatedAppend.mp sep).2.1).1.1
  have inside := (touchInside join.touch proper propers).2
  obtain ⟨left, rest, rfl, imgPre, imgRest⟩ := imageAppend.mp img
  obtain ⟨mid, right, rfl, imgMid, imgPost⟩ := imageAppend.mp imgRest
  have none : mid = [] := by
    apply List.eq_nil_iff_forall_not_mem.mpr
    intro y mem
    obtain ⟨f, touches, _, lt⟩ := imageMem imgMid mem
    obtain ⟨low, high⟩ := inside f touches
    have mono := upMono i low
    omega
  subst none
  have pos := alignmentPos i
  exact imageAppend.mpr ⟨left, right, rfl, imgPre, .skip (by omega) imgPost⟩

theorem addUnit {spare : List Nat} {r : Added} (join : Join p pre touched post joined)
    (proper : p.Proper) (sep : Separated (pre ++ (touched ++ post))) (small : joined.endAddr < 2 ^ 64)
    (list : spans xs = pre ++ (touched ++ post))
    (done : addNodes 0 p.base p.endAddr (p.endAddr - p.base) xs spare = some r) :
    spans r.nodes = pre ++ joined :: post ∧ boundaries 0 r.merged p = joined := by
  obtain ⟨inner, sepPost, _⟩ := separatedAppend.mp (separatedAppend.mp sep).2.1
  have properJoined : joined.Proper := (joinSeparated join proper sep).1 joined (by simp)
  obtain ⟨⟨low, high⟩, _⟩ := touchInside join.touch proper inner.1
  have unit : alignment 0 = 1 := rfl
  unfold Extent.Proper at properJoined
  have gained := addNodesGained proper rfl list join.before (touchMeets join.touch proper inner.1) small
    (fun y mem => ⟨join.after y mem, (sepPost.1 y mem).le⟩) done
  obtain ⟨nodes, merged⟩ := gained
  constructor
  · rcases nodes with same | ⟨_, tiny⟩
    · exact same
    · omega
  · rcases merged with tiny | same | ⟨same, rfl⟩
    · omega
    · have least : (if joined.base < p.base then joined.base else p.base) = joined.base := by
        split_ifs <;> omega
      have greatest : (if p.endAddr < joined.endAddr then joined.endAddr else p.endAddr) = joined.endAddr := by
        split_ifs <;> omega
      simp only [boundaries, same, unit, if_true, least, greatest]
    · simp only [boundaries, same]

end joined

end Flexbuild.Slob
