import Mathlib.Data.List.Nodup
import Flexbuild.IprHoldings

/-! Every stored frame leaves the context once. An arrival that is safe is refused, or taken by an
open context, or closes it; the concatenation, or the timeout with its callback, then goes through
exactly the slots that were stored. -/
namespace Flexbuild.IprFragments
open Words Links Tilings

structure Complete (c : Context) (taken : List Fragment) (pieces : List Piece) : Prop where
  stored : c.fds = stores taken
  pieces : ∃ slots : List Nat, slots.Perm (List.range taken.length) ∧ pieces = c.pieces slots

inductive Outcome (inst : Instance) (c : Context) (f : Fragment) (taken : List Fragment) :
    Context × FragStatus → Prop where
  | refused {c' : Context} {s : FragStatus} {k : Nat} {order : List Nat} (bad : s.malformed = true)
      (held : Held c' taken k order) : Outcome inst c f taken (c', s)
  | taken {c' : Context} {k : Nat} {order : List Nat} (held : Held c' (taken ++ [f]) k order) :
      Outcome inst c f taken (c', .fragOkReassNotCompl)
  | inOrder {c' : Context} (completes : Completes c f)
      (complete : Complete c' (taken ++ [f]) (closingInOrder c' c'.rfdc.numOfFrags)) :
      Outcome inst c f taken (c', .lastFragInOrder)
  | outOfOrder {c' : Context} (completes : Completes c f)
      (complete : Complete c' (taken ++ [f]) (closingWithReordering c')) :
      Outcome inst c f taken (c', .lastFragOutOfOrder)

section
variable {inst : Instance} {c : Context} {f : Fragment} {k : Nat} {order : List Nat}
  {taken : List Fragment}

theorem continuedOutcome (held : Held c taken k order) (prefixOnly : c.rfdc.outOfOrder = false)
    (clear : ¬ EcnConflict c f) (next : f.offset = c.rfdc.currentTotalLength)
    (room : taken.length < maxNumOfFrags) (fragment : f.isFragment = true)
    (fits : Completes c f → ¬ Oversized inst c f) :
    Outcome inst c f taken
      (firstFragment (inOrder inst (c.read f) f).1 f, (inOrder inst (c.read f) f).2) := by
  have completes (last : f.last = true) : Completes c f := ⟨clear, by simp [prefixOnly, next, last]⟩
  have stored : (inOrder inst (c.read f) f).2 ≠ .malfMaxReassFrmSz := by
    obtain ⟨slot, ⟨-, last, large⟩ | ⟨⟨kept, -⟩ | ⟨last, -⟩, -⟩⟩ :=
      inOrderCases inst (c.read f) f
    · exact absurd large (fits (completes last))
    · simp [kept]
    · simp [last]
  obtain ⟨holds, free⟩ := held.read.continue inst prefixOnly next room stored
  have holds := holds.firstFragment (f := f) (by simp)
  obtain ⟨slot, ⟨bad, -⟩ | ⟨⟨kept, more, -⟩ | ⟨status, last⟩, -⟩⟩ :=
    inOrderCases inst (c.read f) f
  · exact absurd bad stored
  · rw [kept]
    exact .taken { holds with free := by rw [firstFragmentNext, free kept]; simp }
  · -- A first fragment that is also the last one would be a whole datagram.
    have positive : 0 < taken.length := by
      cases taken with
      | nil =>
        have zero : f.offset = 0 := next.trans held.nothing
        simp [Fragment.isFragment, zero, last] at fragment
      | cons g taken => simp
    rw [status]
    refine .inOrder (completes last) ⟨holds.stored, List.range (taken.length + 1), by simp, ?_⟩
    rw [holds.listed.counted, List.length_append, List.length_singleton]
    exact closingInOrderPieces (by omega) room

theorem expectedAfter {l r : List Nat} {c' : Context} (result : Insertion (c.read f) f order l r c') :
    c'.rfdc.expectedTotalLength =
      if c.rfdc.biggestPayload ≤ f.offset ∧ f.last = true then wrap 16 (f.offset + f.size)
      else c.rfdc.expectedTotalLength := by
  rw [result.rfdc]
  by_cases none : r = []
  · have high : c.rfdc.biggestPayload ≤ f.offset := (result.atEnd none).1
    simp [none, high, Context.read]
  · have low : ¬ c.rfdc.biggestPayload ≤ f.offset := Nat.not_le.mpr (result.inside none).1
    simp [none, low, Context.read]

theorem insertedOutcome {l r : List Nat} {c' : Context} (held : Held c taken k order)
    (ooo : c.rfdc.outOfOrder = true) (clear : ¬ EcnConflict c f)
    (result : Insertion (c.read f) f order l r c') (room : taken.length < maxNumOfFrags)
    (fits : Completes c f → ¬ Oversized inst c f)
    (ends : c.rfdc.orderAndOoo = false → f.offset + f.size < maxIpSize) :
    Outcome inst c f taken (settle f (placed inst c' f)) := by
  have place : FindsPlace c f :=
    ⟨k, order, l, r, held.free ▸ held.listed, result.split, result.afterPrefix, result.above,
      result.below, result.atEnd, result.inside⟩
  have total : c'.rfdc.currentTotalLength = c.rfdc.currentTotalLength := by
    rw [result.rfdc]
    rfl
  have header : c'.rfdc.firstFragHdrLength = (c.read f).rfdc.firstFragHdrLength := by
    rw [result.rfdc]
  have completes (whole : wrap 16 (c'.rfdc.currentTotalLength + f.size) =
      c'.rfdc.expectedTotalLength) : Completes c f := by
    refine ⟨clear, ?_⟩
    rw [if_pos ooo]
    exact ⟨place, by rw [← total, whole, expectedAfter result]⟩
  have stored : (placed inst c' f).2 ≠ .malfMaxReassFrmSz := by
    obtain ⟨slot, ⟨-, whole, large⟩ | ⟨⟨kept, -⟩ | ⟨last, -⟩, -⟩⟩ :=
      placedCases inst c' f
    · refine absurd ?_ (fits (completes whole))
      rw [total, header] at large
      exact large
    · simp [kept]
    · simp [last]
  obtain ⟨holds, free⟩ := held.read.insert ooo room ends result stored
  have holds := holds.firstFragment (f := f) (by simp)
  obtain ⟨slot, ⟨bad, -⟩ | ⟨⟨kept, -⟩ | ⟨status, whole⟩, shape⟩⟩ :=
    placedCases inst c' f
  · exact absurd bad stored
  · have settled : settle f (placed inst c' f) =
        (firstFragment (placed inst c' f).1 f, .fragOkReassNotCompl) := by
      simp [settle, kept, FragStatus.malformed]
    rw [settled]
    exact .taken { holds with free := by rw [firstFragmentNext, free kept]; simp }
  · have settled : settle f (placed inst c' f) =
        (firstFragment (placed inst c' f).1 f, .lastFragOutOfOrder) := by
      simp [settle, status, FragStatus.malformed]
    have still : (firstFragment (placed inst c' f).1 f).rfdc.outOfOrder = true := by
      unfold firstFragment
      split <;> · rw [shape, result.rfdc]; exact ooo
    have begun := held.listed.begun ooo
    have two : 2 ≤ (taken ++ [f]).length := by
      rw [List.length_append, List.length_singleton]
      omega
    rw [settled]
    exact .outOfOrder (completes whole)
      ⟨holds.stored, _, prefixAndList holds, closingPieces holds.listed two still⟩

theorem arrivalOutcome (held : Held c taken k order) (room : taken.length < maxNumOfFrags)
    (fragment : f.isFragment = true) (fits : Completes c f → ¬ Oversized inst c f)
    (ends : Detached c f → f.offset + f.size < maxIpSize) :
    ∃ result, iprInsertToLinkList inst c f = some result ∧ Outcome inst c f taken result := by
  obtain ⟨result, answer, arrival⟩ := arrivalCases inst (f := f) held.listed held.free
  refine ⟨result, answer, ?_⟩
  cases arrival with
  | ecn conflict => exact .refused rfl held
  | duplicate clear prefixOnly behind => exact .refused rfl held.read
  | continued clear prefixOnly next =>
    exact continuedOutcome held prefixOnly clear next room fragment fits
  | gap clear prefixOnly beyond =>
    refine .taken ((held.read.open prefixOnly beyond room fun empty => ?_).firstFragment (by simp))
    exact ends ⟨clear, by simp only [prefixOnly]; exact ⟨empty, beyond⟩⟩
  | refused clear ooo why => exact .refused (refusalMalformed why) held.read
  | inserted clear ooo result =>
    refine insertedOutcome held ooo clear result room fits fun alone => ?_
    refine ends ⟨clear, ?_⟩
    rw [if_pos ooo]
    exact ⟨alone, k, order, _, _, held.free ▸ held.listed, result.split, result.afterPrefix,
      result.above, result.below, result.atEnd, result.inside⟩

theorem firstSlotInside (held : Held c taken k order) (more : taken ≠ []) :
    c.firstSlot < taken.length := by
  have positive : 0 < taken.length := List.length_pos_of_ne_nil more
  unfold Context.firstSlot
  split
  · next alone =>
    have ooo : c.rfdc.outOfOrder = true := by simp_all
    obtain ⟨a, rest, rfl⟩ := List.exists_cons_of_ne_nil (held.listed.nonempty ooo)
    rw [held.listed.first a rfl]
    exact (held.listed.mem.mp List.mem_cons_self).2
  · exact positive

theorem firstHanded (held : Held c taken k order) (arrived : c.rfdc.firstArrived = true) :
    ∃ f, taken[c.firstSlot]? = some f ∧ f.offset = 0 := by
  obtain ⟨g, member, zero⟩ := held.arrived arrived
  have positive : 0 < taken.length := List.length_pos_of_mem member
  unfold Context.firstSlot
  cases ooo : c.rfdc.outOfOrder with
  | false => exact held.begun ((held.listed.inOrder ooo).1 ▸ positive)
  | true =>
    cases mixed : c.rfdc.orderAndOoo with
    | true => exact held.begun (held.listed.mixed ooo mixed).2
    | false =>
      obtain ⟨rfl, -⟩ := held.listed.alone ooo mixed
      obtain ⟨a, rest, rfl⟩ := List.exists_cons_of_ne_nil (held.listed.nonempty ooo)
      obtain ⟨i, inside, rfl⟩ := List.mem_iff_getElem.mp member
      have listed : i ∈ a :: rest := held.listed.mem.mpr ⟨Nat.zero_le i, inside⟩
      have sorted := (held.ordered ooo (.inl mixed)).sorted
      have spanOf : taken[i].span = spanAt c.links i := by
        have spans := held.spans i listed
        rw [List.getElem?_eq_getElem inside] at spans
        exact Option.some.inj spans
      have start : (spanAt c.links a).offset = 0 := by
        rcases List.mem_cons.mp listed with same | later
        · rw [← same, ← spanOf]
          exact zero
        · have before : Before (spanAt c.links a) (spanAt c.links i) :=
            List.IsChain.rel_cons sorted (List.mem_map_of_mem later)
          have least : (spanAt c.links i).offset = 0 := by rw [← spanOf]; exact zero
          simp only [Before, Span.stop] at before
          omega
      obtain ⟨f, here, span⟩ := Option.map_eq_some_iff.mp (held.spans a List.mem_cons_self)
      simp only [Bool.not_false, Bool.and_self, if_true, held.listed.first a rfl]
      refine ⟨f, here, ?_⟩
      rw [← span] at start
      exact start

end

inductive Kept (w : World) : Prop where
  | open {k : Nat} {order : List Nat} (held : Held w.context w.taken k order)
      (nothing : w.concatenated = [] ∧ w.discarded = [] ∧ w.handed = []) (kept : w.dropped = [])
  | closed (invalid : w.context.rfdc.valid = false) (accounted : Accounted w)

theorem Kept.accounted {w : World} (kept : Kept w) : Accounted w := by
  cases kept with
  | @«open» k order held nothing kept =>
    refine ⟨held.stored, fun _ => nothing, fun invalid => ?_, ?_, kept⟩
    · exact absurd (held.valid.symm.trans invalid) (by decide)
    · simp [nothing.2.2]
  | closed invalid accounted => exact accounted

theorem takenSnoc (w : World) (f : Fragment) (answer : Answer) :
    World.taken { w with log := w.log ++ [(f, answer)] } =
      if answer.accepted then w.taken ++ [f] else w.taken := by
  cases accepted : answer.accepted <;> simp [World.taken, List.filter_append, accepted]

section
variable {inst : Instance} {w : World}

theorem keptRefusal (kept : Kept w) (f : Fragment) {answer : Answer}
    (refused : answer.accepted = false) : Kept { w with log := w.log ++ [(f, answer)] } := by
  have same : World.taken { w with log := w.log ++ [(f, answer)] } = w.taken := by
    rw [takenSnoc, refused]
    rfl
  cases kept with
  | @«open» k order held nothing kept => exact .open (by rw [same]; exact held) nothing kept
  | closed invalid accounted =>
    exact .closed invalid ⟨by rw [same]; exact accounted.stored, accounted.inside,
      accounted.outside, by rw [same]; exact accounted.first, accounted.kept⟩

theorem keptClosing {c : Context} {f : Fragment} {pieces : List Piece}
    (nothing : w.concatenated = [] ∧ w.discarded = [] ∧ w.handed = []) (kept : w.dropped = [])
    (complete : Complete c (w.taken ++ [f]) pieces) :
    Kept { w with
      context := c.close
      concatenated := w.concatenated ++ pieces
      log := w.log ++ [(f, .completed)] } := by
  obtain ⟨slots, all, rfl⟩ := complete.pieces
  refine .closed rfl ⟨?_, fun valid => absurd valid (by simp [Context.close]), fun _ => ?_, ?_, kept⟩
  · have same := takenSnoc { w with context := c.close } f .completed
    exact complete.stored.trans (congrArg stores same.symm)
  · simp only [nothing, List.nil_append, List.append_nil, List.map_nil, piecesTaken]
    exact (all.map _).trans (takenStores complete.stored)
  · simp [nothing]

theorem stepExpires {c : Context} {expired : Expired}
    (timeOut : iprTimeOut w.context = (c, expired)) :
    step inst w .expires = some { w with
      context := c
      discarded := w.discarded ++ expired.discarded
      handed := w.handed ++ expired.handed.toList } := by
  simp only [step, timeOut]

theorem takenOnce {c : Context} {n : Nat} (inside : c.firstSlot < n) :
    (((List.range n).filter fun index => index != c.firstSlot).map c.taken ++
      [c.taken c.firstSlot]).Perm ((List.range n).map c.taken) := by
  have single : (List.range n).filter (fun index => index == c.firstSlot) = [c.firstSlot] := by
    rw [List.filter_beq, List.count_eq_one_of_mem List.nodup_range (List.mem_range.mpr inside)]
    rfl
  have parts := List.filter_append_perm (fun index => index == c.firstSlot) (List.range n)
  rw [single] at parts
  have swapped := (List.perm_append_comm.trans parts).map c.taken
  simpa [bne] using swapped

theorem keptExpiry (kept : Kept w) : ∃ w', step inst w .expires = some w' ∧ Kept w' := by
  cases kept with
  | closed invalid accounted =>
    have unchanged : iprTimeOut w.context = (w.context, ⟨[], none⟩) := by simp [iprTimeOut, invalid]
    refine ⟨_, stepExpires unchanged, ?_⟩
    simp only [List.append_nil, Option.toList_none]
    exact .closed invalid accounted
  | @«open» k order held nothing kept =>
    by_cases empty : w.taken = []
    · have counted : w.context.rfdc.numOfFrags = 0 := by simp [held.listed.counted, empty]
      have expired : iprTimeOut w.context = (w.context.close, ⟨[], none⟩) := by
        simp [iprTimeOut, held.valid, counted]
      have none : w.context.fds = [] := by rw [held.stored, empty]; rfl
      refine ⟨_, stepExpires expired, ?_⟩
      simp only [nothing, List.append_nil, Option.toList_none]
      refine .closed rfl ⟨held.stored, fun _ => ⟨rfl, rfl, rfl⟩, fun _ => ?_, by simp, kept⟩
      simp [Context.close, none]
    · have counted : w.context.rfdc.numOfFrags ≠ 0 := by
        rw [held.listed.counted]
        exact (List.length_pos_of_ne_nil empty).ne'
      have expired : iprTimeOut w.context = (w.context.close,
          ⟨((List.range w.taken.length).filter fun index => index != w.context.firstSlot).map
            w.context.taken,
            some (w.context.taken w.context.firstSlot, w.context.rfdc.firstArrived)⟩) := by
        simp [iprTimeOut, held.valid, held.listed.counted, empty]
      refine ⟨_, stepExpires expired, ?_⟩
      simp only [nothing, List.nil_append, Option.toList_some]
      refine .closed rfl ⟨held.stored, fun valid => absurd valid (by simp [Context.close]),
        fun _ => ?_, ?_, kept⟩
      · simp only [List.map_nil, List.nil_append, List.map_cons]
        exact (takenOnce (firstSlotInside held empty)).trans (takenStores held.stored)
      · intro h here flag
        obtain rfl := List.mem_singleton.mp here
        obtain ⟨f, slot, zero⟩ := firstHanded held flag
        exact ⟨f, slot, zero, by rw [Context.taken, fdAtStored held.stored, slot]; rfl⟩

theorem keptArrival (kept : Kept w) (f : Fragment) (timerDeleted : Bool)
    (safe : SafeStep inst w (.arrives f timerDeleted)) :
    ∃ w', step inst w (.arrives f timerDeleted) = some w' ∧ Kept w' := by
  simp only [step, iprReassemble]
  cases fragment : f.isFragment with
  | false => exact ⟨_, rfl, keptRefusal kept f rfl⟩
  | true =>
    cases check : checkForFragError inst f with
    | some status => exact ⟨_, rfl, keptRefusal kept f rfl⟩
    | none =>
      obtain ⟨still, fits, ends⟩ := safe fragment check
      cases kept with
      | closed invalid accounted => exact absurd (still.symm.trans invalid) (by decide)
      | @«open» k order held nothing kept =>
        by_cases full : w.context.rfdc.numOfFrags = maxNumOfFrags
        · simp only [still, full, if_true]
          exact ⟨_, rfl, keptRefusal (.open held nothing kept) f rfl⟩
        · have few := held.listed.few
          have counted := held.listed.counted
          have room : w.taken.length < maxNumOfFrags := by omega
          obtain ⟨result, inserted, outcome⟩ :=
            arrivalOutcome held room fragment (fun completes => (fits completes).1) ends
          simp only [still, full, inserted]
          cases outcome with
          | @refused c s k order bad held =>
            have refusal : ∃ w', (some ({ w with context := c }, Answer.malformed s)).bind
                (fun result => some { result.1 with log := result.1.log ++ [(f, result.2)] }) =
                some w' ∧ Kept w' :=
              ⟨_, rfl, keptRefusal (w := { w with context := c }) (.open held nothing kept) f rfl⟩
            cases s <;> first | exact refusal | simp [FragStatus.malformed] at bad
          | @taken c k order held =>
            have grown := takenSnoc { w with context := c } f .notCompleted
            simp only [Answer.accepted, if_true] at grown
            exact ⟨_, rfl, .open (by rw [grown]; exact held) nothing kept⟩
          | @inOrder c completes complete =>
            simp only [finish, (fits completes).2, if_true]
            exact ⟨_, rfl, keptClosing nothing kept complete⟩
          | @outOfOrder c completes complete =>
            simp only [finish, (fits completes).2, if_true]
            exact ⟨_, rfl, keptClosing nothing kept complete⟩

theorem keptStep (kept : Kept w) (event : Event) (safe : SafeStep inst w event) :
    ∃ w', step inst w event = some w' ∧ Kept w' := by
  cases event with
  | arrives f timerDeleted => exact keptArrival kept f timerDeleted safe
  | expires => exact keptExpiry kept

theorem keptRun (kept : Kept w) (events : List Event) (safe : SafeRun inst w events) :
    ∃ w', run inst w events = some w' ∧ Kept w' := by
  induction events generalizing w with
  | nil => exact ⟨w, rfl, kept⟩
  | cons event events ih =>
    obtain ⟨w', next, kept'⟩ := keptStep kept event safe.1
    obtain ⟨final, rest, keptFinal⟩ := ih kept' (safe.2 w' next)
    exact ⟨final, by rw [run, next, Option.bind_some, rest], keptFinal⟩

end

theorem everyFrameOnce (inst : Instance) (hdrLength iphdrOffset fraghdrOffset : Nat)
    (links : LinkList) (events : List Event)
    (safe : SafeRun inst
      (.opened (iprMissHandling hdrLength iphdrOffset fraghdrOffset links)) events) :
    ∃ w, run inst (.opened (iprMissHandling hdrLength iphdrOffset fraghdrOffset links)) events =
      some w ∧ Accounted w := by
  have opened : Kept (.opened (iprMissHandling hdrLength iphdrOffset fraghdrOffset links)) :=
    .open (heldOpened hdrLength iphdrOffset fraghdrOffset links) ⟨rfl, rfl, rfl⟩ rfl
  obtain ⟨w, ran, kept⟩ := keptRun opened events safe
  exact ⟨w, ran, kept.accounted⟩

theorem everyFrameOnceReordered : ∃ w,
    run ⟨1500, 0, 0⟩ (.opened sampleContext)
      [.arrives (sampleFragment 8) true, .arrives (sampleFragment 0x2000) true] = some w ∧
    Accounted w := by
  refine everyFrameOnce ⟨1500, 0, 0⟩ 0 0 0 default _ ⟨fun _ _ => ?_, fun w next => ⟨fun _ _ => ?_, ?_⟩⟩
  · refine ⟨rfl, fun completes => ?_, fun _ => by decide⟩
    exact absurd completes.2.1 (by decide)
  · cases next
    exact ⟨rfl, fun _ => ⟨Nat.not_lt.mpr (by decide), rfl⟩, fun _ => by decide⟩
  · exact fun _ _ => trivial

theorem unwrittenDiscarded : ∃ w,
    run ⟨100, 0, 0⟩ (.opened sampleContext)
      [.arrives (sampleFragment 0x2000) true, .arrives (sampleFragment 8) true, .expires] = some w ∧
    w.context.fds.map Prod.fst = [0] ∧ w.discarded = [(1, none)] ∧ ¬ Accounted w := by
  refine ⟨_, rfl, by decide, by decide, fun accounted => ?_⟩
  exact absurd (accounted.outside rfl).length_eq (by decide)

end Flexbuild.IprFragments
