import Flexbuild.Shbp

/-! Every buffer is in one place. The invariant says what each side may rely on between its
steps: which of its copied indices is exact, that its copy leaves room or an entry, and, once a
descriptor is read or written, that the ring agrees with it. -/
namespace Flexbuild.Shbp
open Words Rings

variable {β : Type} {c : Config} {alloc free alloc' free' : Queue β} {A F A' F' : List β}

def Puts (k : Nat) (q : Queue β) (vs : List β) (enq deq : Nat) : Prop :=
  Producer 32 k q vs enq deq ∧ minus 32 enq deq ≠ 2 ^ k

def Takes (k : Nat) (q : Queue β) (vs : List β) (enq deq : Nat) : Prop :=
  Consumer 32 k q vs enq deq ∧ minus 32 enq deq ≠ 0

def HostOk (c : Config) (alloc free : Queue β) (A F : List β) : HostPc β → Prop
  | .idle => True
  | .acquireRead h => c.hostIsMaster = true ∧ Takes c.maxNum alloc A h.allocEnq h.allocDeq
  | .acquireDeq h buf =>
      c.hostIsMaster = true ∧ Takes c.maxNum alloc A h.allocEnq h.allocDeq ∧ A.head? = some buf
  | .releaseWrite h _ => Puts c.maxNum alloc A h.allocEnq h.allocDeq
  | .releaseEnq h buf =>
      Puts c.maxNum alloc A h.allocEnq h.allocDeq ∧ alloc.slots (index c.maxNum alloc.enq) = buf
  | .refillRead h =>
      Puts c.maxNum alloc A h.allocEnq h.allocDeq ∧ Takes c.maxNum free F h.freeEnq h.freeDeq
  | .refillDeq h buf =>
      Puts c.maxNum alloc A h.allocEnq h.allocDeq ∧
        Takes c.maxNum free F h.freeEnq h.freeDeq ∧ F.head? = some buf
  | .refillWrite h _ =>
      Puts c.maxNum alloc A h.allocEnq h.allocDeq ∧
        Consumer 32 c.maxNum free F h.freeEnq h.freeDeq
  | .refillEnq h buf =>
      Puts c.maxNum alloc A h.allocEnq h.allocDeq ∧
        Consumer 32 c.maxNum free F h.freeEnq h.freeDeq ∧
        alloc.slots (index c.maxNum alloc.enq) = buf

def AiopOk (c : Config) (alloc free : Queue β) (A F : List β) : AiopPc β → Prop
  | .idle => True
  | .acquireRead h => c.hostIsMaster = false ∧ Takes c.maxNum alloc A h.allocEnq h.allocDeq
  | .acquireDeq h buf =>
      c.hostIsMaster = false ∧ Takes c.maxNum alloc A h.allocEnq h.allocDeq ∧ A.head? = some buf
  | .releaseWrite h _ => Puts c.maxNum free F h.freeEnq h.freeDeq
  | .releaseEnq h buf =>
      Puts c.maxNum free F h.freeEnq h.freeDeq ∧ free.slots (index c.maxNum free.enq) = buf

theorem putsStable {k enq deq : Nat} (puts : Puts k alloc A enq deq)
    (same : alloc'.enq = alloc.enq) (fewer : A'.length ≤ A.length) : Puts k alloc' A' enq deq :=
  ⟨producerStable puts.1 same fewer, puts.2⟩

theorem takesStable {k enq deq : Nat} (takes : Takes k alloc A enq deq)
    (same : alloc'.deq = alloc.deq) (grown : A <+: A') : Takes k alloc' A' enq deq :=
  ⟨consumerStable takes.1 same grown.length_le, takes.2⟩

theorem headStable {v : β} (head : A.head? = some v) (grown : A <+: A') : A'.head? = some v := by
  obtain ⟨more, rfl⟩ := grown
  cases A with
  | nil => cases head
  | cons a rest => exact head

theorem hostStable {pc : HostPc β} (ok : HostOk c alloc free A F pc)
    (enq : alloc'.enq = alloc.enq) (slots : alloc'.slots = alloc.slots)
    (fewer : A'.length ≤ A.length)
    (master : c.hostIsMaster = true → alloc'.deq = alloc.deq ∧ A <+: A')
    (deq : free'.deq = free.deq) (grown : F <+: F') : HostOk c alloc' free' A' F' pc := by
  cases pc with
  | idle => trivial
  | acquireRead h =>
    obtain ⟨isMaster, takes⟩ := ok
    obtain ⟨same, kept⟩ := master isMaster
    exact ⟨isMaster, takesStable takes same kept⟩
  | acquireDeq h buf =>
    obtain ⟨isMaster, takes, head⟩ := ok
    obtain ⟨same, kept⟩ := master isMaster
    exact ⟨isMaster, takesStable takes same kept, headStable head kept⟩
  | releaseWrite h buf => exact putsStable ok enq fewer
  | releaseEnq h buf =>
    obtain ⟨puts, written⟩ := ok
    exact ⟨putsStable puts enq fewer, by rw [slots, enq]; exact written⟩
  | refillRead h =>
    obtain ⟨puts, takes⟩ := ok
    exact ⟨putsStable puts enq fewer, takesStable takes deq grown⟩
  | refillDeq h buf =>
    obtain ⟨puts, takes, head⟩ := ok
    exact ⟨putsStable puts enq fewer, takesStable takes deq grown, headStable head grown⟩
  | refillWrite h buf =>
    obtain ⟨puts, copy⟩ := ok
    exact ⟨putsStable puts enq fewer, consumerStable copy deq grown.length_le⟩
  | refillEnq h buf =>
    obtain ⟨puts, copy, written⟩ := ok
    exact ⟨putsStable puts enq fewer, consumerStable copy deq grown.length_le,
      by rw [slots, enq]; exact written⟩

theorem aiopStable {pc : AiopPc β} (ok : AiopOk c alloc free A F pc)
    (enq : free'.enq = free.enq) (slots : free'.slots = free.slots) (fewer : F'.length ≤ F.length)
    (slave : c.hostIsMaster = false → alloc'.deq = alloc.deq ∧ A <+: A') :
    AiopOk c alloc' free' A' F' pc := by
  cases pc with
  | idle => trivial
  | acquireRead h =>
    obtain ⟨isSlave, takes⟩ := ok
    obtain ⟨same, kept⟩ := slave isSlave
    exact ⟨isSlave, takesStable takes same kept⟩
  | acquireDeq h buf =>
    obtain ⟨isSlave, takes, head⟩ := ok
    obtain ⟨same, kept⟩ := slave isSlave
    exact ⟨isSlave, takesStable takes same kept, headStable head kept⟩
  | releaseWrite h buf => exact putsStable ok enq fewer
  | releaseEnq h buf =>
    obtain ⟨puts, written⟩ := ok
    exact ⟨putsStable puts enq fewer, by rw [slots, enq]; exact written⟩

structure Ok (c : Config) (s : Pool β) (A F : List β) : Prop where
  alloc : Holds 32 c.maxNum s.alloc A
  free : Holds 32 c.maxNum s.free F
  allocOrder : s.allocLog.entered = s.allocLog.left ++ A
  freeOrder : s.freeLog.entered = s.freeLog.left ++ F
  host : HostOk c s.alloc s.free A F s.host
  aiop : AiopOk c s.alloc s.free A F s.aiop
  whole : (A : Multiset β) + F + s.hostHeld + s.aiopHeld + s.host.carried + s.aiop.carried =
    s.population
  distinct : s.population.Nodup

theorem refillLoopOk {lbp : Header} (copy : Producer 32 c.maxNum alloc A lbp.allocEnq lbp.allocDeq)
    (source : Consumer 32 c.maxNum free F lbp.freeEnq lbp.freeDeq) :
    HostOk c alloc free A F (c.refillLoop lbp) ∧ (c.refillLoop lbp : HostPc β).carried = 0 := by
  unfold Config.refillLoop
  split
  · rename_i go
    obtain ⟨some_, open_⟩ := go
    exact ⟨⟨⟨copy, of_decide_eq_false open_⟩,
      source, of_decide_eq_false some_⟩, rfl⟩
  · exact ⟨trivial, rfl⟩

variable {s : Pool β} {held : Multiset β}

theorem hostStartOk (ok : Ok c s A F) (idle : s.host = .idle) {pc : HostPc β}
    (host : HostOk c s.alloc s.free A F pc)
    (moved : held + pc.carried = s.hostHeld) :
    Ok c { s with host := pc, hostHeld := held } A F := by
  refine ⟨ok.alloc, ok.free, ok.allocOrder, ok.freeOrder, host, ok.aiop, ?_, ok.distinct⟩
  rw [← ok.whole, idle, ← moved]
  simp only [HostPc.carried]
  abel

theorem aiopStartOk (ok : Ok c s A F) (idle : s.aiop = .idle) {pc : AiopPc β}
    (aiop : AiopOk c s.alloc s.free A F pc)
    (moved : held + pc.carried = s.aiopHeld) :
    Ok c { s with aiop := pc, aiopHeld := held } A F := by
  refine ⟨ok.alloc, ok.free, ok.allocOrder, ok.freeOrder, ok.host, aiop, ?_, ok.distinct⟩
  rw [← ok.whole, idle, ← moved]
  simp only [AiopPc.carried]
  abel

variable {buf : β}

theorem eraseAdd [DecidableEq β] (mem : buf ∈ held) : held.erase buf + {buf} = held := by
  rw [Multiset.add_comm, Multiset.singleton_add, Multiset.cons_erase mem]

theorem bringOk (ok : Ok c s A F) (fresh : buf ∉ s.population) :
    Ok c { s with hostHeld := buf ::ₘ s.hostHeld, population := buf ::ₘ s.population } A F := by
  refine ⟨ok.alloc, ok.free, ok.allocOrder, ok.freeOrder, ok.host, ok.aiop, ?_,
    Multiset.nodup_cons.mpr ⟨fresh, ok.distinct⟩⟩
  simp only [← Multiset.singleton_add, ← ok.whole]
  abel

theorem handToAiopOk [DecidableEq β] (ok : Ok c s A F) (mem : buf ∈ s.hostHeld) :
    Ok c { s with hostHeld := s.hostHeld.erase buf, aiopHeld := buf ::ₘ s.aiopHeld } A F := by
  refine ⟨ok.alloc, ok.free, ok.allocOrder, ok.freeOrder, ok.host, ok.aiop, ?_, ok.distinct⟩
  have back := eraseAdd mem
  generalize s.hostHeld.erase buf = rest at back ⊢
  rw [← ok.whole, ← back]
  simp only [← Multiset.singleton_add]
  abel

theorem handToHostOk [DecidableEq β] (ok : Ok c s A F) (mem : buf ∈ s.aiopHeld) :
    Ok c { s with aiopHeld := s.aiopHeld.erase buf, hostHeld := buf ::ₘ s.hostHeld } A F := by
  refine ⟨ok.alloc, ok.free, ok.allocOrder, ok.freeOrder, ok.host, ok.aiop, ?_, ok.distinct⟩
  have back := eraseAdd mem
  generalize s.aiopHeld.erase buf = rest at back ⊢
  rw [← ok.whole, ← back]
  simp only [← Multiset.singleton_add]
  abel

theorem aiopErrorOk (ok : Ok c s A F) : Ok c (aiopError s) A F := by
  refine ⟨ok.alloc, ok.free, ok.allocOrder, ok.freeOrder, ok.host, trivial, ?_, ok.distinct⟩
  refine Eq.trans ?_ ok.whole
  simp only [aiopError, AiopPc.carried]
  abel

section Steps

variable (narrow : c.maxNum < 32)
include narrow

variable {t : Pool β}

theorem hostStepOk (ok : Ok c s A F) (done : hostStep c s = some t) : ∃ A' F', Ok c t A' F' := by
  obtain ⟨allocHolds, freeHolds, allocOrder, freeOrder, host, aiop, whole, distinct⟩ := ok
  unfold hostStep at done
  cases at_ : s.host with
  | idle =>
    rw [at_] at done
    cases done
  | acquireRead h =>
    rw [at_] at done host whole
    cases done
    obtain ⟨isMaster, takes⟩ := host
    obtain ⟨v, rest, rfl⟩ := consumerNonempty takes.1 takes.2
    refine ⟨v :: rest, F, allocHolds, freeHolds, allocOrder, freeOrder, ⟨isMaster, takes, ?_⟩,
      aiop, whole, distinct⟩
    rw [takes.1.own, holdsHead allocHolds]
    rfl
  | acquireDeq h buf =>
    rw [at_] at done host whole
    cases done
    obtain ⟨isMaster, takes, head⟩ := host
    obtain ⟨v, rest, rfl⟩ := consumerNonempty takes.1 takes.2
    cases head
    refine ⟨rest, F, ?_, freeHolds, ?_, freeOrder, trivial, ?_, ?_, distinct⟩
    · simp only [takes.1.own]
      exact holdsDequeue allocHolds
    · simp only [Log.leave, allocOrder, List.append_assoc, List.singleton_append]
    · apply aiopStable aiop rfl rfl (le_refl _)
      intro isSlave
      rw [isMaster] at isSlave
      cases isSlave
    · rw [← whole]
      simp only [HostPc.carried, ← Multiset.cons_coe, ← Multiset.singleton_add]
      abel
  | releaseWrite h buf =>
    rw [at_] at done host whole
    cases done
    have room := producerRoom narrow host.1 host.2
    have own := host.1.own
    obtain ⟨kept, written⟩ := @holdsWrite β 32 c.maxNum s.alloc A buf narrow allocHolds room
    rw [← own] at kept written
    refine ⟨A, F, kept, freeHolds, allocOrder, freeOrder, ⟨putsStable host rfl (le_refl _), ?_⟩,
      aiopStable aiop rfl rfl (le_refl _) (fun _ => ⟨rfl, List.prefix_rfl⟩), whole, distinct⟩
    simp [Queue.write, own]
  | releaseEnq h buf =>
    rw [at_] at done host whole
    cases done
    obtain ⟨puts, written⟩ := host
    have room := producerRoom narrow puts.1 puts.2
    refine ⟨A ++ [buf], F, ?_, freeHolds, ?_, freeOrder, trivial, ?_, ?_, distinct⟩
    · simp only [puts.1.own]
      exact holdsEnqueue allocHolds room written
    · simp only [Log.enter, allocOrder, List.append_assoc]
    · exact aiopStable aiop rfl rfl (le_refl _) (fun _ => ⟨rfl, List.prefix_append _ _⟩)
    · rw [← whole]
      simp only [HostPc.carried, ← Multiset.coe_add, Multiset.coe_singleton]
      abel
  | refillRead h =>
    rw [at_] at done host whole
    cases done
    obtain ⟨puts, takes⟩ := host
    obtain ⟨v, rest, rfl⟩ := consumerNonempty takes.1 takes.2
    refine ⟨A, v :: rest, allocHolds, freeHolds, allocOrder, freeOrder, ⟨puts, takes, ?_⟩,
      aiop, whole, distinct⟩
    rw [takes.1.own, holdsHead freeHolds]
    rfl
  | refillDeq h buf =>
    rw [at_] at done host whole
    cases done
    obtain ⟨puts, takes, head⟩ := host
    obtain ⟨v, rest, rfl⟩ := consumerNonempty takes.1 takes.2
    cases head
    refine ⟨A, rest, allocHolds, ?_, allocOrder, ?_,
      ⟨puts, consumerTake narrow takes.1 takes.2⟩, ?_, ?_, distinct⟩
    · simp only [takes.1.own]
      exact holdsDequeue freeHolds
    · simp only [Log.leave, freeOrder, List.append_assoc, List.singleton_append]
    · exact aiopStable aiop rfl rfl (Nat.le_succ _) (fun _ => ⟨rfl, List.prefix_rfl⟩)
    · rw [← whole]
      simp only [HostPc.carried, ← Multiset.cons_coe, ← Multiset.singleton_add]
      abel
  | refillWrite h buf =>
    rw [at_] at done host whole
    cases done
    obtain ⟨puts, source⟩ := host
    have room := producerRoom narrow puts.1 puts.2
    have own := puts.1.own
    obtain ⟨kept, written⟩ := @holdsWrite β 32 c.maxNum s.alloc A buf narrow allocHolds room
    rw [← own] at kept written
    refine ⟨A, F, kept, freeHolds, allocOrder, freeOrder,
      ⟨putsStable puts rfl (le_refl _), source, ?_⟩,
      aiopStable aiop rfl rfl (le_refl _) (fun _ => ⟨rfl, List.prefix_rfl⟩), whole, distinct⟩
    simp [Queue.write, own]
  | refillEnq h buf =>
    rw [at_] at done host whole
    cases done
    obtain ⟨puts, source, written⟩ := host
    have room := producerRoom narrow puts.1 puts.2
    have next := @producerPut β 32 c.maxNum s.alloc A buf _ _ narrow puts.1 puts.2
    obtain ⟨loop, empty⟩ := @refillLoopOk β c _ _ _ _
      { h with allocEnq := wrap 32 (h.allocEnq + 1) } next source
    refine ⟨A ++ [buf], F, ?_, freeHolds, ?_, freeOrder, loop, ?_, ?_, distinct⟩
    · simp only [puts.1.own]
      exact holdsEnqueue allocHolds room written
    · simp only [Log.enter, allocOrder, List.append_assoc]
    · exact aiopStable aiop rfl rfl (le_refl _) (fun _ => ⟨rfl, List.prefix_append _ _⟩)
    · rw [← whole]
      rw [empty]
      simp only [HostPc.carried, ← Multiset.coe_add, Multiset.coe_singleton]
      abel

theorem aiopStepOk (ok : Ok c s A F) (done : aiopStep c s = some t) : ∃ A' F', Ok c t A' F' := by
  obtain ⟨allocHolds, freeHolds, allocOrder, freeOrder, host, aiop, whole, distinct⟩ := ok
  unfold aiopStep at done
  cases at_ : s.aiop with
  | idle =>
    rw [at_] at done
    cases done
  | acquireRead h =>
    rw [at_] at done aiop whole
    cases done
    obtain ⟨isSlave, takes⟩ := aiop
    obtain ⟨v, rest, rfl⟩ := consumerNonempty takes.1 takes.2
    refine ⟨v :: rest, F, allocHolds, freeHolds, allocOrder, freeOrder, host, ⟨isSlave, takes, ?_⟩,
      whole, distinct⟩
    rw [takes.1.own, holdsHead allocHolds]
    rfl
  | acquireDeq h buf =>
    rw [at_] at done aiop whole
    cases done
    obtain ⟨isSlave, takes, head⟩ := aiop
    obtain ⟨v, rest, rfl⟩ := consumerNonempty takes.1 takes.2
    cases head
    refine ⟨rest, F, ?_, freeHolds, ?_, freeOrder, ?_, trivial, ?_, distinct⟩
    · simp only [takes.1.own]
      exact holdsDequeue allocHolds
    · simp only [Log.leave, allocOrder, List.append_assoc, List.singleton_append]
    · refine hostStable host rfl rfl (Nat.le_succ _) (fun isMaster => ?_) rfl List.prefix_rfl
      rw [isSlave] at isMaster
      cases isMaster
    · rw [← whole]
      simp only [AiopPc.carried, ← Multiset.cons_coe, ← Multiset.singleton_add]
      abel
  | releaseWrite h buf =>
    rw [at_] at done aiop whole
    cases done
    have room := producerRoom narrow aiop.1 aiop.2
    have own := aiop.1.own
    obtain ⟨kept, written⟩ := @holdsWrite β 32 c.maxNum s.free F buf narrow freeHolds room
    rw [← own] at kept written
    refine ⟨A, F, allocHolds, kept, allocOrder, freeOrder, ?_,
      ⟨putsStable aiop rfl (le_refl _), ?_⟩, whole, distinct⟩
    · exact hostStable host rfl rfl (le_refl _) (fun _ => ⟨rfl, List.prefix_rfl⟩) rfl
        List.prefix_rfl
    · simp [Queue.write, own]
  | releaseEnq h buf =>
    rw [at_] at done aiop whole
    cases done
    obtain ⟨puts, written⟩ := aiop
    have room := producerRoom narrow puts.1 puts.2
    refine ⟨A, F ++ [buf], allocHolds, ?_, allocOrder, ?_, ?_, trivial, ?_, distinct⟩
    · simp only [puts.1.own]
      exact holdsEnqueue freeHolds room written
    · simp only [Log.enter, freeOrder, List.append_assoc]
    · exact hostStable host rfl rfl (le_refl _) (fun _ => ⟨rfl, List.prefix_rfl⟩) rfl
        (List.prefix_append _ _)
    · rw [← whole]
      simp only [AiopPc.carried, ← Multiset.coe_add, Multiset.coe_singleton]
      abel

theorem shbpFlibAcquireOk (ok : Ok c s A F) (idle : s.host = .idle) :
    Ok c (shbpFlibAcquire c s) A F := by
  unfold shbpFlibAcquire
  split
  · exact ok
  · rename_i master
    split
    · exact ok
    · rename_i some_
      have standing : HostOk c s.alloc s.free A F (.acquireRead s.header) :=
        ⟨by simpa using master, consumerCopy narrow ok.alloc, of_decide_eq_false (Bool.eq_false_of_not_eq_true some_)⟩
      exact hostStartOk ok idle standing (Multiset.add_zero _)

theorem shbpFlibReleaseOk [DecidableEq β] (ok : Ok c s A F) (idle : s.host = .idle)
    (mem : buf ∈ s.hostHeld) : Ok c (shbpFlibRelease c s buf) A F := by
  unfold shbpFlibRelease
  split
  · exact ok
  · rename_i open_
    have standing : HostOk c s.alloc s.free A F (.releaseWrite s.header buf) :=
      ⟨producerCopy narrow ok.alloc, of_decide_eq_false (Bool.eq_false_of_not_eq_true open_)⟩
    exact hostStartOk ok idle standing (eraseAdd mem)

theorem shbpFlibRefillOk (ok : Ok c s A F) (idle : s.host = .idle) :
    Ok c (shbpFlibRefill c s) A F := by
  obtain ⟨loop, empty⟩ := @refillLoopOk β c s.alloc s.free A F s.header
    (producerCopy narrow ok.alloc) (consumerCopy narrow ok.free)
  exact hostStartOk ok idle loop (by rw [empty]; exact Multiset.add_zero _)

theorem shbpAcquireOk (ok : Ok c s A F) (idle : s.aiop = .idle) : Ok c (shbpAcquire c s) A F := by
  unfold shbpAcquire
  split
  · exact ok
  · rename_i slave
    split
    · exact ok
    · rename_i some_
      have standing : AiopOk c s.alloc s.free A F (.acquireRead s.header) :=
        ⟨by simpa using slave, consumerCopy narrow ok.alloc, of_decide_eq_false (Bool.eq_false_of_not_eq_true some_)⟩
      exact aiopStartOk ok idle standing (Multiset.add_zero _)

theorem shbpReleaseOk [DecidableEq β] (ok : Ok c s A F) (idle : s.aiop = .idle)
    (mem : buf ∈ s.aiopHeld) : Ok c (shbpRelease c s buf) A F := by
  unfold shbpRelease
  split
  · exact ok
  · rename_i open_
    have standing : AiopOk c s.alloc s.free A F (.releaseWrite s.header buf) :=
      ⟨producerCopy narrow ok.free, of_decide_eq_false (Bool.eq_false_of_not_eq_true open_)⟩
    exact aiopStartOk ok idle standing (eraseAdd mem)

theorem stepOk [DecidableEq β] {a : Action β} (ok : Ok c s A F) (done : step c s a = some t) :
    ∃ A' F', Ok c t A' F' := by
  cases a with
  | bring buf =>
    simp only [step] at done
    split at done
    · cases done
    · rename_i fresh
      cases done
      exact ⟨A, F, bringOk ok fresh⟩
  | handToAiop buf =>
    simp only [step] at done
    split at done
    · rename_i held
      cases done
      exact ⟨A, F, handToAiopOk ok held⟩
    · cases done
  | handToHost buf =>
    simp only [step] at done
    split at done
    · rename_i held
      cases done
      exact ⟨A, F, handToHostOk ok held⟩
    · cases done
  | shbpFlibAcquire =>
    simp only [step] at done
    split at done
    · rename_i idle
      cases done
      exact ⟨A, F, shbpFlibAcquireOk narrow ok idle⟩
    · cases done
  | shbpFlibRelease buf =>
    simp only [step] at done
    split at done
    · rename_i can
      cases done
      exact ⟨A, F, shbpFlibReleaseOk narrow ok can.1 can.2⟩
    · cases done
  | shbpFlibRefill =>
    simp only [step] at done
    split at done
    · rename_i idle
      cases done
      exact ⟨A, F, shbpFlibRefillOk narrow ok idle⟩
    · cases done
  | hostStep => exact hostStepOk narrow ok done
  | shbpAcquire =>
    simp only [step] at done
    split at done
    · rename_i idle
      cases done
      exact ⟨A, F, shbpAcquireOk narrow ok idle⟩
    · cases done
  | shbpRelease buf =>
    simp only [step] at done
    split at done
    · rename_i can
      cases done
      exact ⟨A, F, shbpReleaseOk narrow ok can.1 can.2⟩
    · cases done
  | aiopStep => exact aiopStepOk narrow ok done
  | aiopError =>
    cases done
    exact ⟨A, F, aiopErrorOk ok⟩

theorem runOk [DecidableEq β] {actions : List (Action β)} (ok : Ok c s A F)
    (done : run c s actions = some t) : ∃ A' F', Ok c t A' F' := by
  induction actions generalizing s A F with
  | nil =>
    cases done
    exact ⟨A, F, ok⟩
  | cons a rest ih =>
    obtain ⟨next, stepped, later⟩ := Option.bind_eq_some_iff.mp done
    obtain ⟨A', F', ok'⟩ := stepOk narrow ok stepped
    exact ih ok' later

end Steps

structure Owned (c : Config) (s : Pool β) : Prop where
  allocFits : minus 32 s.alloc.enq s.alloc.deq ≤ c.size
  freeFits : minus 32 s.free.enq s.free.deq ≤ c.size
  whole : (s.alloc.contents 32 c.maxNum : Multiset β) + s.free.contents 32 c.maxNum +
    s.hostHeld + s.aiopHeld + s.host.carried + s.aiop.carried = s.population
  distinct : s.population.Nodup
  allocOrder : s.allocLog.entered = s.allocLog.left ++ s.alloc.contents 32 c.maxNum
  freeOrder : s.freeLog.entered = s.freeLog.left ++ s.free.contents 32 c.maxNum

structure AtRest (c : Config) (s : Pool β) : Prop where
  host : s.host = .idle
  aiop : s.aiop = .idle
  words : s.alloc.enq < 2 ^ 32 ∧ s.alloc.deq < 2 ^ 32 ∧ s.free.enq < 2 ^ 32 ∧ s.free.deq < 2 ^ 32
  owned : Owned c s

theorem holdsOfCount {k : Nat} {q : Queue β} (enq : q.enq < 2 ^ 32)
    (deq : q.deq < 2 ^ 32) (fits : minus 32 q.enq q.deq ≤ 2 ^ k) :
    Holds 32 k q (q.contents 32 k) := by
  have length : (q.contents 32 k).length = minus 32 q.enq q.deq := by simp [Queue.contents]
  refine ⟨deq, ?_, by rw [length]; exact fits, ?_⟩
  · rw [length]
    exact (wrapAddMinus enq deq).symm
  · intro j lt
    simp [Queue.contents]

theorem buffersOwned [DecidableEq β] {s t : Pool β} (sized : c.maxNum < 32) (start : AtRest c s)
    (actions : List (Action β)) (done : run c s actions = some t) : Owned c t := by
  obtain ⟨hostIdle, aiopIdle, ⟨allocEnq, allocDeq, freeEnq, freeDeq⟩, owned⟩ := start
  have ok : Ok c s (s.alloc.contents 32 c.maxNum) (s.free.contents 32 c.maxNum) :=
    ⟨holdsOfCount allocEnq allocDeq owned.allocFits,
      holdsOfCount freeEnq freeDeq owned.freeFits, owned.allocOrder, owned.freeOrder,
      by rw [hostIdle]; trivial, by rw [aiopIdle]; trivial, owned.whole, owned.distinct⟩
  obtain ⟨A, F, final⟩ := runOk sized ok done
  have allocIs := holdsContents sized final.alloc
  have freeIs := holdsContents sized final.free
  refine ⟨?_, ?_, ?_, final.distinct, ?_, ?_⟩
  · rw [holdsCount sized final.alloc]
    exact final.alloc.fits
  · rw [holdsCount sized final.free]
    exact final.free.fits
  · rw [allocIs, freeIs]
    exact final.whole
  · rw [allocIs]
    exact final.allocOrder
  · rw [freeIs]
    exact final.freeOrder

def Pool.fresh (start : Nat) (slots : Nat → β) : Pool β :=
  ⟨⟨start, start, slots⟩, ⟨start, start, slots⟩, .idle, .idle, 0, 0, 0, ⟨[], []⟩, ⟨[], []⟩⟩

def wrappingRun : List (Action Nat) :=
  [.bring 7, .bring 9, .shbpFlibRelease 7, .hostStep, .hostStep, .shbpAcquire,
    .shbpFlibRelease 9, .hostStep, .aiopStep, .hostStep, .aiopStep, .shbpRelease 7,
    .aiopStep, .aiopStep, .shbpFlibRefill]

theorem buffersOwnedAcrossWrap :
    ∃ t : Pool Nat, run ⟨3, false⟩ (.fresh (2 ^ 32 - 1) (fun _ => 0)) wrappingRun = some t ∧
      t.alloc.contents 32 3 = [9] ∧ t.free.contents 32 3 = [7] ∧ Owned ⟨3, false⟩ t := by
  have start : AtRest ⟨3, false⟩ (Pool.fresh (2 ^ 32 - 1) (fun _ => 0) : Pool Nat) :=
    ⟨rfl, rfl, by decide, by decide, by decide, rfl, Multiset.nodup_zero, rfl, rfl⟩
  have outcome : (run ⟨3, false⟩ (.fresh (2 ^ 32 - 1) (fun _ => 0)) wrappingRun).map
      (fun t => (t.alloc.contents 32 3, t.free.contents 32 3)) = some ([9], [7]) := by
    decide
  obtain ⟨t, done, rings⟩ := Option.map_eq_some_iff.mp outcome
  obtain ⟨alloc, free⟩ := Prod.mk.inj rings
  exact ⟨t, done, alloc, free, buffersOwned (by decide) start wrappingRun done⟩

end Flexbuild.Shbp
