import Flexbuild.IprReassembly
import Flexbuild.Checksums

/-! Fragments that are refused. Three of the checks come too late: the codes of ECN and the length of the first
header are taken over before a fragment is found to be a duplicate or out of place, and the fragment that makes
a datagram too large has been counted by then. -/
namespace Flexbuild.IprFragments
open Words Checksums

structure Summed where
  context : Context
  currentRunningSum : BitVec 16

def insertSummed (inst : Instance) (x : Summed) (f : Fragment) (sum : BitVec 16) : Option (Summed × FragStatus) :=
  match iprInsertToLinkList inst x.context f with
  | none => none
  | some (c, status) =>
      let atEnd := !status.malformed || (status == .malfMaxReassFrmSz && !x.context.rfdc.outOfOrder)
      some (⟨c, if atEnd then cksumOnesComplementSum16 x.currentRunningSum sum else x.currentRunningSum⟩, status)

-- The search of `out_of_order` comes to a place for the fragment.
def hasPlace (c : Context) (f : Fragment) : Bool :=
  let r := c.rfdc
  let octetIndex := r.lastFragIndex / 8
  let linkList := readOctet c.links octetIndex
  if f.offset < r.totalInOrderPayload then false
  else if f.offset ≥ r.biggestPayload then r.expectedTotalLength = 0
  else if f.last then false
  else if f.offset + f.size > (linkList (r.lastFragIndex % 8)).fragOffset then false
  else
    match search c.links (f.offset + f.size) r.firstFragIndex 256 r.lastFragIndex octetIndex linkList with
    | none => false
    | some (.first ..) => true
    | some (.behind _ linkList temp) =>
        f.offset ≥ wrap 16 ((linkList (temp % 8)).fragOffset + (linkList (temp % 8)).fragLength)

def expectedWith (c : Context) (f : Fragment) : Nat :=
  if c.rfdc.biggestPayload ≤ f.offset ∧ f.last = true then wrap 16 (f.offset + f.size) else c.rfdc.expectedTotalLength

def Repeats (c : Context) (f : Fragment) : Prop :=
  (f.offset = 0 → c.rfdc.firstFragHdrLength = f.firstFragHdrLength) ∧
    (f.ecn = notEct → c.rfdc.statusNotEct = true) ∧ (f.ecn = ce → c.rfdc.statusCe = true)

def Misplaced (c : Context) (f : Fragment) : Prop :=
  if c.rfdc.outOfOrder then hasPlace c f = false else f.offset < c.rfdc.currentTotalLength

def TooLarge (inst : Instance) (c : Context) (f : Fragment) : Prop :=
  Oversized inst c f ∧
    if c.rfdc.outOfOrder then
      hasPlace c f = true ∧ wrap 16 (c.rfdc.currentTotalLength + f.size) = expectedWith c f
    else f.offset = c.rfdc.currentTotalLength ∧ f.last = true

def Traceless (inst : Instance) (c : Context) (f : Fragment) : Prop :=
  ¬EcnConflict c f → (Misplaced c f → Repeats c f) ∧ ¬TooLarge inst c f

section Once

variable {inst : Instance} {c c' : Context} {f : Fragment} {s : FragStatus}

theorem repeatsRead : c.read f = c ↔ Repeats c f := by
  obtain ⟨r, links, fds⟩ := c
  have parts : Context.read ⟨r, links, fds⟩ f = ⟨r, links, fds⟩ ↔
      (if f.offset ≠ 0 then r.firstFragHdrLength else f.firstFragHdrLength) = r.firstFragHdrLength ∧
        (r.statusNotEct || f.ecn == notEct) = r.statusNotEct ∧ (r.statusCe || f.ecn == ce) = r.statusCe := by
    constructor
    · intro same
      have rfdc := congrArg Context.rfdc same
      exact ⟨congrArg Rfdc.firstFragHdrLength rfdc, congrArg Rfdc.statusNotEct rfdc, congrArg Rfdc.statusCe rfdc⟩
    · rintro ⟨length, plain, congested⟩
      simp only [Context.read, length, plain, congested]
  rw [parts, Repeats]
  refine and_congr ?_ (and_congr ?_ ?_)
  · by_cases first : f.offset = 0 <;> simp [first, eq_comm]
  · cases r.statusNotEct <;> simp
  · cases r.statusCe <;> simp

theorem counted (n : Nat) : wrap 8 (n + 1) ≠ n := by
  unfold wrap
  omega

theorem placedMalformed (d : Context) :
    (placed inst d f).2.malformed = true ↔ wrap 16 (d.rfdc.currentTotalLength + f.size) = d.rfdc.expectedTotalLength ∧
      inst.maxReassFrmSize < wrap 16 (d.rfdc.currentTotalLength + f.size) + d.rfdc.firstFragHdrLength := by
  unfold placed
  dsimp only
  split
  · next complete =>
    split
    · next fits =>
      refine ⟨nofun, fun large => ?_⟩
      omega
    · next large => exact ⟨fun _ => ⟨complete, Nat.not_le.1 large⟩, fun _ => rfl⟩
  · next more => exact ⟨nofun, fun large => absurd large.1 more⟩

theorem placedCounts (d : Context) : (placed inst d f).1.rfdc.numOfFrags = wrap 8 (d.rfdc.numOfFrags + 1) := by
  unfold placed
  dsimp only
  repeat' split
  all_goals rfl

theorem outOfOrderPlaced (answer : outOfOrder inst c f = some (c', s)) :
    hasPlace c f = false ∧ c' = c ∧ s.malformed = true ∨
    hasPlace c f = true ∧ ∃ d : Context, (c', s) = placed inst d f ∧ d.rfdc.expectedTotalLength = expectedWith c f ∧
      d.rfdc.currentTotalLength = c.rfdc.currentTotalLength ∧ d.rfdc.numOfFrags = c.rfdc.numOfFrags ∧
      d.rfdc.firstFragHdrLength = c.rfdc.firstFragHdrLength := by
  unfold outOfOrder at answer
  unfold hasPlace expectedWith
  dsimp only at answer ⊢
  split at answer
  · next early =>
    cases answer
    exact Or.inl ⟨if_pos early, rfl, rfl⟩
  · next late =>
    rw [if_neg late]
    split at answer
    · next beyond =>
      rw [if_pos beyond]
      split at answer
      · next known =>
        cases answer
        exact Or.inl ⟨decide_eq_false known, rfl, rfl⟩
      · next unknown =>
        refine Or.inr ⟨decide_eq_true (not_not.1 unknown), _, (Option.some.inj answer).symm, ?_, rfl, rfl, rfl⟩
        dsimp only
        by_cases last : f.last = true
        · rw [if_pos last, if_pos ⟨beyond, last⟩]
        · rw [if_neg last, if_neg fun both => last both.2]
    · next inside =>
      have within : ¬(c.rfdc.biggestPayload ≤ f.offset ∧ f.last = true) := fun both => inside both.1
      rw [if_neg inside, if_neg within]
      split at answer
      · next last =>
        cases answer
        exact Or.inl ⟨if_pos last, rfl, rfl⟩
      · next more =>
        rw [if_neg more]
        split at answer
        · next reaches =>
          cases answer
          exact Or.inl ⟨if_pos reaches, rfl, rfl⟩
        · next short =>
          rw [if_neg short]
          cases found : search c.links (f.offset + f.size) c.rfdc.firstFragIndex 256 c.rfdc.lastFragIndex
              (c.rfdc.lastFragIndex / 8) (readOctet c.links (c.rfdc.lastFragIndex / 8)) with
          | none =>
            rw [found] at answer
            cases answer
          | some place =>
            rw [found] at answer
            cases place with
            | first => exact Or.inr ⟨rfl, _, (Option.some.inj answer).symm, rfl, rfl, rfl, rfl⟩
            | behind =>
              dsimp only at answer ⊢
              split at answer
              · next free => exact Or.inr ⟨decide_eq_true free, _, (Option.some.inj answer).symm, rfl, rfl, rfl, rfl⟩
              · next covered =>
                cases answer
                exact Or.inl ⟨decide_eq_false covered, rfl, rfl⟩

theorem inOrderMalformed (d : Context) : (inOrder inst d f).2.malformed = true ↔
    inst.maxReassFrmSize < wrap 16 (d.rfdc.currentTotalLength + f.size) + d.rfdc.firstFragHdrLength ∧ f.last = true := by
  unfold inOrder
  dsimp only
  split
  · next last =>
    split
    · next fits => exact ⟨nofun, fun large => absurd large.1 (Nat.not_lt.2 fits)⟩
    · next large => exact ⟨fun _ => ⟨Nat.not_le.1 large, last⟩, fun _ => rfl⟩
  · next more => exact ⟨nofun, fun large => absurd large.2 more⟩

theorem inOrderCounts (d : Context) :
    (firstFragment (inOrder inst d f).1 f).rfdc.numOfFrags = wrap 8 (d.rfdc.numOfFrags + 1) := by
  have kept (e : Context) : (firstFragment e f).rfdc.numOfFrags = e.rfdc.numOfFrags := by
    unfold firstFragment
    split
    all_goals rfl
  rw [kept]
  unfold inOrder
  dsimp only
  repeat' split
  all_goals rfl

theorem insertedTraceless (answer : iprInsertToLinkList inst c f = some (c', s)) :
    (s.malformed = true → c' = c) ↔ Traceless inst c f := by
  rcases ecnCheckCases c f with ⟨conflict, check⟩ | ⟨clear, r, check, read⟩
  · rw [iprInsertToLinkList, check] at answer
    cases answer
    exact ⟨fun _ clear => absurd conflict clear, fun _ _ => rfl⟩
  have whole : ({ c with rfdc := (c.read f).rfdc } : Context) = c.read f := rfl
  simp only [iprInsertToLinkList, check, read, whole] at answer
  have only : Traceless inst c f ↔ (Misplaced c f → Repeats c f) ∧ ¬TooLarge inst c f :=
    ⟨fun traceless => traceless clear, fun both _ => both⟩
  rw [only]
  have grown {d : Context} (count : d.rfdc.numOfFrags = wrap 8 (c.rfdc.numOfFrags + 1)) : d ≠ c := by
    rintro rfl
    exact counted _ count.symm
  cases ooo : c.rfdc.outOfOrder with
  | false =>
    have still : (c.read f).rfdc.outOfOrder = false := ooo
    simp only [still, Bool.not_false, if_true] at answer
    unfold Misplaced TooLarge
    simp only [ooo, Bool.false_eq_true, if_false]
    change (if f.offset = c.rfdc.currentTotalLength then _ else if f.offset < c.rfdc.currentTotalLength then _ else _) = _
      at answer
    split at answer
    · next next =>
      have none : ¬f.offset < c.rfdc.currentTotalLength := by omega
      cases answer
      refine ⟨fun same => ⟨fun behind => absurd behind none, fun large => ?_⟩, fun both bad => absurd ?_ both.2⟩
      · exact grown (inOrderCounts (c.read f)) (same ((inOrderMalformed (c.read f)).2 ⟨large.1, large.2.2⟩))
      · obtain ⟨large, last⟩ := (inOrderMalformed (c.read f)).1 bad
        exact ⟨large, next, last⟩
    · next other =>
      split at answer
      · next behind =>
        cases answer
        rw [← repeatsRead]
        exact ⟨fun same => ⟨fun _ => same rfl, fun large => other large.2.1⟩, fun both _ => both.1 behind⟩
      · next beyond =>
        cases answer
        exact ⟨fun _ => ⟨fun behind => absurd behind beyond, fun large => other large.2.1⟩,
          fun _ bad => absurd bad Bool.false_ne_true⟩
  | true =>
    have still : (c.read f).rfdc.outOfOrder = true := ooo
    simp only [still, Bool.not_true, Bool.false_eq_true, if_false] at answer
    unfold Misplaced TooLarge
    simp only [ooo, if_true]
    split at answer
    · cases answer
    · next d status given =>
      rcases outOfOrderPlaced given with ⟨placeless, rfl, bad⟩ | ⟨place, d', whole, expected, total, count, length⟩
      · have none : hasPlace c f = false := placeless
        rw [if_pos bad] at answer
        cases answer
        rw [← repeatsRead]
        refine ⟨fun same => ⟨fun _ => same bad, fun large => ?_⟩, fun both _ => both.1 none⟩
        rw [none] at large
        cases large.2.1
      · have some : hasPlace c f = true := place
        obtain rfl : d = (placed inst d' f).1 := congrArg Prod.fst whole
        obtain rfl : status = (placed inst d' f).2 := congrArg Prod.snd whole
        have bad : (placed inst d' f).2.malformed = true ↔ Oversized inst c f ∧
            wrap 16 (c.rfdc.currentTotalLength + f.size) = expectedWith c f := by
          rw [placedMalformed, expected, total, length, and_comm]
          rfl
        refine ⟨fun same => ⟨fun none => ?_, fun large => ?_⟩, fun both malformed => ?_⟩
        · rw [some] at none
          cases none
        · have malformed := bad.2 ⟨large.1, large.2.2⟩
          rw [if_pos malformed] at answer
          obtain ⟨rfl, rfl⟩ := Prod.mk.inj (Option.some.inj answer)
          refine grown ?_ (same malformed)
          rw [placedCounts, count]
          rfl
        · split at answer
          · next refused =>
            obtain ⟨large, complete⟩ := bad.1 refused
            exact absurd ⟨large, some, complete⟩ both.2
          · next taken =>
            obtain ⟨rfl, rfl⟩ := Prod.mk.inj (Option.some.inj answer)
            exact absurd malformed taken

theorem tooLargeCounts (answer : iprInsertToLinkList inst c f = some (c', .malfMaxReassFrmSz))
    (prefixOnly : c.rfdc.outOfOrder = false) : c' ≠ c := by
  rcases ecnCheckCases c f with ⟨conflict, check⟩ | ⟨clear, r, check, read⟩
  · rw [iprInsertToLinkList, check] at answer
    cases answer
  have whole : ({ c with rfdc := (c.read f).rfdc } : Context) = c.read f := rfl
  have still : (c.read f).rfdc.outOfOrder = false := prefixOnly
  simp only [iprInsertToLinkList, check, read, whole, still, Bool.not_false, if_true] at answer
  split at answer
  · obtain ⟨rfl, -⟩ := Prod.mk.inj (Option.some.inj answer)
    intro same
    have count := @inOrderCounts inst f (c.read f)
    rw [same] at count
    exact counted _ count.symm
  · split at answer
    · cases answer
    · cases answer

theorem summedTraceless {x x' : Summed} {sum : BitVec 16} (answer : insertSummed inst x f sum = some (x', s)) :
    (s.malformed = true → x' = x) ↔ Traceless inst x.context f := by
  obtain ⟨c, current⟩ := x
  unfold insertSummed at answer
  dsimp only at answer
  split at answer
  · cases answer
  · next c' status given =>
    obtain ⟨rfl, rfl⟩ := Prod.mk.inj (Option.some.inj answer)
    rw [← insertedTraceless given]
    refine ⟨fun same bad => congrArg Summed.context (same bad), fun same bad => ?_⟩
    obtain rfl := same bad
    congr 1
    refine if_neg fun atEnd => ?_
    rw [bad, Bool.not_true, Bool.false_or, Bool.and_eq_true] at atEnd
    rw [eq_of_beq atEnd.1] at given
    exact tooLargeCounts given (by simpa using atEnd.2) rfl

end Once

section Runs

structure Traced where
  world : World
  currentRunningSum : BitVec 16

def Inserts (inst : Instance) (c : Context) (f : Fragment) : Prop :=
  f.isFragment = true ∧ checkForFragError inst f = none ∧ c.rfdc.valid = true ∧ c.rfdc.numOfFrags ≠ maxNumOfFrags

instance (inst : Instance) (c : Context) (f : Fragment) : Decidable (Inserts inst c f) :=
  inferInstanceAs (Decidable (_ ∧ _ ∧ _ ∧ _))

def sumAfter (inst : Instance) (t : Traced) : Event → BitVec 16 → BitVec 16
  | .arrives f _, sum =>
      if Inserts inst t.world.context f then
        match insertSummed inst ⟨t.world.context, t.currentRunningSum⟩ f sum with
        | some (x, _) => x.currentRunningSum
        | none => t.currentRunningSum
      else t.currentRunningSum
  | .expires, _ => t.currentRunningSum

def stepSummed (inst : Instance) (t : Traced) (event : Event × BitVec 16) : Option Traced :=
  (step inst t.world event.1).map fun w => ⟨w, sumAfter inst t event.1 event.2⟩

def runSummed (inst : Instance) : Traced → List (Event × BitVec 16) → Option Traced
  | t, [] => some t
  | t, event :: events => (stepSummed inst t event).bind fun t => runSummed inst t events

def Answer.isMalformed : Answer → Bool
  | .malformed _ => true
  | _ => false

def refuses (inst : Instance) (w : World) : Event → Bool
  | .arrives f timerDeleted => (iprReassemble inst w f timerDeleted).any fun result => result.2.isMalformed
  | .expires => false

def withoutRefused (inst : Instance) : Traced → List (Event × BitVec 16) → List (Event × BitVec 16)
  | _, [] => []
  | t, event :: events =>
      match stepSummed inst t event with
      | none => []
      | some t' =>
          let rest := withoutRefused inst t' events
          if refuses inst t.world event.1 then rest else event :: rest

def Traced.pruned (t : Traced) : Traced :=
  ⟨{ t.world with log := t.world.log.filter fun entry => !entry.2.isMalformed }, t.currentRunningSum⟩

def TracelessStep (inst : Instance) (w : World) : Event → Prop
  | .arrives f _ => Inserts inst w.context f → Traceless inst w.context f
  | .expires => True

def TracelessRun (inst : Instance) : Traced → List (Event × BitVec 16) → Prop
  | _, [] => True
  | t, event :: events =>
      TracelessStep inst t.world event.1 ∧ ∀ t', stepSummed inst t event = some t' → TracelessRun inst t' events

variable {inst : Instance} {w w' : World} {f : Fragment} {timerDeleted : Bool} {answer : Answer}
  {log : List (Fragment × Answer)} {t t' : Traced} {sum : BitVec 16}

theorem logKept (done : iprReassemble inst w f timerDeleted = some (w', answer)) : w'.log = w.log ∧
    iprReassemble inst { w with log := log } f timerDeleted = some ({ w' with log := log }, answer) := by
  have finished {c : Context} {pieces : List Piece} (closed : finish w c pieces timerDeleted = (w', answer)) :
      w'.log = w.log ∧ finish { w with log := log } c pieces timerDeleted = ({ w' with log := log }, answer) := by
    unfold finish at closed ⊢
    cases timerDeleted <;> (cases closed; exact ⟨rfl, rfl⟩)
  unfold iprReassemble at done ⊢
  dsimp only at done ⊢
  split at done
  · next whole =>
    cases done
    exact ⟨rfl, if_pos whole⟩
  · next part =>
    rw [if_neg part]
    split at done
    · cases done
      exact ⟨rfl, rfl⟩
    · split at done
      · next early =>
        cases done
        exact ⟨rfl, if_pos early⟩
      · next opened =>
        rw [if_neg opened]
        split at done
        · next full =>
          cases done
          exact ⟨rfl, if_pos full⟩
        · next room =>
          rw [if_neg room]
          split at done
          · cases done
          · cases done
            exact ⟨rfl, rfl⟩
          · obtain ⟨kept, same⟩ := finished (Option.some.inj done)
            exact ⟨kept, congrArg some same⟩
          · obtain ⟨kept, same⟩ := finished (Option.some.inj done)
            exact ⟨kept, congrArg some same⟩
          · cases done
            exact ⟨rfl, rfl⟩

theorem refusedWays {status : FragStatus}
    (done : iprReassemble inst w f timerDeleted = some (w', .malformed status)) :
    ¬Inserts inst w.context f ∧ w' = w ∨
    Inserts inst w.context f ∧ status.malformed = true ∧
      ∃ c, iprInsertToLinkList inst w.context f = some (c, status) ∧ w' = { w with context := c } := by
  have unfinished (c : Context) (pieces : List Piece) :
      finish w c pieces timerDeleted ≠ (w', .malformed status) := by
    unfold finish
    cases timerDeleted <;> exact nofun
  unfold iprReassemble at done
  split at done
  · cases done
  · next part =>
    have fragment : f.isFragment = true := by simpa using part
    split at done
    · next refusal =>
      cases done
      exact Or.inl ⟨fun inserts => (nomatch inserts.2.1.symm.trans refusal), rfl⟩
    · next check =>
      split at done
      · cases done
      · next opened =>
        have valid : w.context.rfdc.valid = true := by simpa using opened
        split at done
        · cases done
        · next room =>
          have inserts : Inserts inst w.context f := ⟨fragment, check, valid, room⟩
          split at done
          · cases done
          · cases done
          · exact absurd (Option.some.inj done) (unfinished _ _)
          · exact absurd (Option.some.inj done) (unfinished _ _)
          · next c status' plain inOrder outOfOrder given =>
            cases done
            refine Or.inr ⟨inserts, ?_, c, given, rfl⟩
            cases status with
            | fragOkReassNotCompl => exact absurd rfl plain
            | lastFragInOrder => exact absurd rfl inOrder
            | lastFragOutOfOrder => exact absurd rfl outOfOrder
            | _ => rfl

theorem refusedStep (traceless : TracelessStep inst t.world (.arrives f timerDeleted))
    (refused : refuses inst t.world (.arrives f timerDeleted) = true)
    (done : stepSummed inst t (.arrives f timerDeleted, sum) = some t') : t'.pruned = t.pruned := by
  obtain ⟨w, current⟩ := t
  obtain ⟨w', stepped, rfl⟩ := Option.map_eq_some_iff.1 done
  unfold refuses at refused
  unfold step at stepped
  dsimp only at refused stepped
  cases answered : iprReassemble inst w f timerDeleted with
  | none =>
    rw [answered] at stepped
    cases stepped
  | some result =>
    obtain ⟨w'', answer⟩ := result
    rw [answered] at stepped refused
    cases stepped
    cases answer with
    | malformed status =>
      have silent : (w''.log ++ [(f, Answer.malformed status)]).filter (fun entry => !entry.2.isMalformed) =
          w''.log.filter fun entry => !entry.2.isMalformed := by
        rw [List.filter_append]
        exact List.append_nil _
      unfold Traced.pruned sumAfter
      dsimp only
      rw [silent]
      rcases refusedWays answered with ⟨outside, rfl⟩ | ⟨inserts, bad, c, given, rfl⟩
      · rw [if_neg outside]
      · have same := (insertedTraceless given).2 (traceless inserts) bad
        obtain ⟨x, summed⟩ : ∃ x, insertSummed inst ⟨w.context, current⟩ f sum = some (x, status) := by
          unfold insertSummed
          dsimp only
          rw [given]
          exact ⟨_, rfl⟩
        have kept := (summedTraceless summed).2 (traceless inserts) bad
        rw [if_pos inserts, summed, kept, same]
    | _ => cases refused

theorem takenStep {event : Event × BitVec 16} (taken : refuses inst t.world event.1 = false)
    (done : stepSummed inst t event = some t') : stepSummed inst t.pruned event = some t'.pruned := by
  obtain ⟨event, sum⟩ := event
  obtain ⟨w, current⟩ := t
  obtain ⟨w', stepped, rfl⟩ := Option.map_eq_some_iff.1 done
  dsimp only at stepped taken
  cases event with
  | expires =>
    cases stepped
    rfl
  | arrives f timerDeleted =>
    unfold step at stepped
    unfold refuses at taken
    dsimp only at stepped taken
    cases answered : iprReassemble inst w f timerDeleted with
    | none =>
      rw [answered] at stepped
      cases stepped
    | some result =>
      obtain ⟨w'', answer⟩ := result
      rw [answered] at stepped taken
      cases stepped
      obtain ⟨kept, again⟩ := @logKept inst w w'' f timerDeleted answer
        (w.log.filter fun entry => !entry.2.isMalformed) answered
      have entry : [(f, answer)].filter (fun entry => !entry.2.isMalformed) = [(f, answer)] :=
        List.filter_cons_of_pos (by simpa using taken)
      unfold stepSummed step Traced.pruned
      dsimp only
      rw [again, Option.map_some, List.filter_append, entry, kept]
      rfl

theorem runTraceless {events : List (Event × BitVec 16)} (traceless : TracelessRun inst t events)
    (done : runSummed inst t events = some t') :
    runSummed inst t.pruned (withoutRefused inst t events) = some t'.pruned := by
  induction events generalizing t with
  | nil =>
    cases done
    rfl
  | cons event events later =>
    obtain ⟨t₁, stepped, rest⟩ := Option.bind_eq_some_iff.1 done
    have again := later (traceless.2 t₁ stepped) rest
    rw [withoutRefused, stepped]
    dsimp only
    cases refused : refuses inst t.world event.1 with
    | true =>
      obtain ⟨event, sum⟩ := event
      cases event with
      | expires => cases refused
      | arrives f timerDeleted =>
        rw [if_pos rfl, ← refusedStep traceless.1 refused stepped]
        exact again
    | false =>
      rw [if_neg (by decide), runSummed, takenStep refused stepped]
      exact again

end Runs

structure Refusals (inst : Instance) : Prop where
  each : ∀ x f sum x' s, insertSummed inst x f sum = some (x', s) →
    ((s.malformed = true → x' = x) ↔ Traceless inst x.context f)
  runs : ∀ t t' events, t.world.log = [] → TracelessRun inst t events → runSummed inst t events = some t' →
    ∃ t'', runSummed inst t (withoutRefused inst t events) = some t'' ∧
      t''.currentRunningSum = t'.currentRunningSum ∧
      t''.world = { t'.world with log := t'.world.log.filter fun entry => !entry.2.isMalformed }

theorem refusedFragments (inst : Instance) : Refusals inst where
  each _ _ _ _ _ answer := summedTraceless answer
  runs t t' events start traceless done := by
    have same : t.pruned = t := by
      obtain ⟨⟨context, concatenated, discarded, handed, dropped, log⟩, current⟩ := t
      cases start
      rfl
    have run := runTraceless traceless done
    rw [same] at run
    exact ⟨_, run, rfl, rfl⟩

def duplicated : List (Event × BitVec 16) :=
  [(.arrives (sampleFragment 0x2000) true, 0), (.arrives (sampleFragment 0x2000) true, 0),
    (.arrives (sampleFragment 8) true, 0)]

theorem refusedFragmentsDuplicate : ∃ t,
    runSummed ⟨160, 0, 0⟩ ⟨.opened sampleContext, 0⟩ (withoutRefused ⟨160, 0, 0⟩ ⟨.opened sampleContext, 0⟩ duplicated) = some t ∧
      t.world.log.map Prod.snd = [.notCompleted, .completed] := by
  have traceless : TracelessRun ⟨160, 0, 0⟩ ⟨.opened sampleContext, 0⟩ duplicated := by
    refine ⟨fun _ => ?_, fun _ one => ?_⟩
    · unfold Traceless EcnConflict Misplaced Repeats TooLarge Oversized
      decide
    cases one
    refine ⟨fun _ => ?_, fun _ two => ?_⟩
    · unfold Traceless EcnConflict Misplaced Repeats TooLarge Oversized
      decide
    cases two
    refine ⟨fun _ => ?_, fun _ _ => trivial⟩
    unfold Traceless EcnConflict Misplaced Repeats TooLarge Oversized
    decide
  obtain ⟨t, run, -, world⟩ := (refusedFragments ⟨160, 0, 0⟩).runs _ _ duplicated rfl traceless rfl
  refine ⟨t, run, ?_⟩
  rw [world]
  decide

def longHeader : Fragment := ⟨14, .ipv4 0x4f 0 124 0x2000, ⟨List.replicate 138 0, 0⟩⟩

theorem duplicateCounts :
    (∃ c, iprInsertToLinkList ⟨160, 0, 0⟩ sampleContext (sampleFragment 0x2000) = some (c, .fragOkReassNotCompl) ∧
      ∃ x, insertSummed ⟨160, 0, 0⟩ ⟨c, 0⟩ longHeader 0 = some (x, .malfOverlapDuplicate) ∧ x ≠ ⟨c, 0⟩) ∧
    (runSummed ⟨160, 0, 0⟩ ⟨.opened sampleContext, 0⟩
      [(.arrives (sampleFragment 0x2000) true, 0), (.arrives longHeader true, 0), (.arrives (sampleFragment 8) true, 0)]).map
        (fun t => t.world.log.map Prod.snd) =
      some [.notCompleted, .malformed .malfOverlapDuplicate, .malformed .malfMaxReassFrmSz] ∧
    (runSummed ⟨160, 0, 0⟩ ⟨.opened sampleContext, 0⟩
      [(.arrives (sampleFragment 0x2000) true, 0), (.arrives (sampleFragment 8) true, 0)]).map
        (fun t => t.world.log.map Prod.snd) = some [.notCompleted, .completed] := by
  refine ⟨⟨_, rfl, _, rfl, fun same => ?_⟩, by decide, by decide⟩
  have length := congrArg (fun x => x.context.rfdc.firstFragHdrLength) same
  revert length
  decide

end Flexbuild.IprFragments
