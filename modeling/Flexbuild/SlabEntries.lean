import Mathlib.Algebra.BigOperators.Group.Finset.Piecewise
import Mathlib.Data.List.Pairwise
import Flexbuild.SlabDistribution

/-! The entries the distribution writes. The array is read as the list of its written
cells; each partition contributes as many as it was given ids, and these answer all
requests of the partition. -/
namespace Flexbuild.SlabBoot
open Words (wrap)

structure Filled (arr : BpidsArr) (es : List SlabBpidInfo) : Prop where
  position : arr.position = es.length
  cells : ∀ j, arr.cells j = es[j]?

structure Pending (arr : BpidsArr) (es : List SlabBpidInfo) (e : SlabBpidInfo) : Prop where
  position : arr.position = es.length
  cells : ∀ j, arr.cells j = (es ++ [e])[j]?

theorem writeFilled {arr es} (filled : Filled arr es) (e : SlabBpidInfo) :
    Pending (arr.write e) es e := by
  refine ⟨filled.position, fun j => ?_⟩
  simp only [BpidsArr.write, filled.position]
  by_cases same : j = es.length
  · subst same
    simp
  · rw [Function.update_of_ne same, filled.cells j]
    grind

theorem writePending {arr es e} (pending : Pending arr es e) (next : SlabBpidInfo) :
    Pending (arr.write next) es next := by
  refine ⟨pending.position, fun j => ?_⟩
  simp only [BpidsArr.write, pending.position]
  by_cases same : j = es.length
  · subst same
    simp
  · rw [Function.update_of_ne same, pending.cells j]
    grind

theorem advancePending {arr es e} (pending : Pending arr es e) :
    Filled arr.advance (es ++ [e]) :=
  ⟨by simp [BpidsArr.advance, pending.position], pending.cells⟩

def buffersOf (es : List SlabBpidInfo) : Nat := (es.map SlabBpidInfo.numBuffers).sum

def maxOf (infos : List RequestTableInfo) : Nat := (infos.map RequestTableInfo.max).sum

def requestsOf (infos : List RequestTableInfo) : Nat :=
  infos.countP (fun info => decide (0 < info.max))

-- The counts are 32-bit words, so the totals agree modulo `2 ^ 32` and never come out larger.
structure Answered (memPid : Nat) (infos : List RequestTableInfo) (es : List SlabBpidInfo) :
    Prop where
  partition : ∀ e ∈ es, e.memPid = memPid
  covered : ∀ info ∈ infos, 0 < info.max →
    ∃ e ∈ es, info.buffSize ≤ e.size ∧ info.alignment ≤ e.alignment
  congruent : buffersOf es % 2 ^ 32 = maxOf infos % 2 ^ 32
  atMost : buffersOf es ≤ maxOf infos

theorem answeredAppend {memPid infos more es others} (first : Answered memPid infos es)
    (second : Answered memPid more others) :
    Answered memPid (infos ++ more) (es ++ others) := by
  have sums : buffersOf (es ++ others) = buffersOf es + buffersOf others := by simp [buffersOf]
  have maxima : maxOf (infos ++ more) = maxOf infos + maxOf more := by simp [maxOf]
  refine ⟨?_, ?_, ?_, ?_⟩
  · intro e mem
    rcases List.mem_append.mp mem with left | right
    · exact first.partition e left
    · exact second.partition e right
  · intro info mem pos
    rcases List.mem_append.mp mem with left | right
    · obtain ⟨e, found, fits⟩ := first.covered info left pos
      exact ⟨e, List.mem_append_left _ found, fits⟩
    · obtain ⟨e, found, fits⟩ := second.covered info right pos
      exact ⟨e, List.mem_append_right _ found, fits⟩
  · have left := first.congruent
    have right := second.congruent
    rw [sums, maxima]
    omega
  · rw [sums, maxima]
    exact Nat.add_le_add first.atMost second.atMost

theorem answeredOwn (memPid : Nat) (info : RequestTableInfo) :
    Answered memPid [info] [.of memPid info] :=
  ⟨by simp [SlabBpidInfo.of], by simp [SlabBpidInfo.of], rfl, le_refl _⟩

theorem answeredSkip (memPid : Nat) {info : RequestTableInfo} (none : ¬ 0 < info.max) :
    Answered memPid [info] [] := by
  have zero : info.max = 0 := Nat.eq_zero_of_not_pos none
  exact ⟨by simp, by simp [zero], by simp [buffersOf, maxOf, zero], by simp [buffersOf, maxOf]⟩

variable {es : List SlabBpidInfo} {arr : BpidsArr}

theorem ownEntriesAnswer (memPid : Nat) {available : Nat} {infos : List RequestTableInfo} (filled : Filled arr es)
    (two : 2 ≤ available) (enough : available ≤ requestsOf infos) :
    ∃ front own, infos = front ++ (ownEntries memPid available infos arr).1 ∧
      Filled (ownEntries memPid available infos arr).2 (es ++ own) ∧
      own.length + 1 = available ∧ Answered memPid front own ∧
      1 ≤ requestsOf (ownEntries memPid available infos arr).1 := by
  induction infos generalizing available arr es with
  | nil =>
    simp only [requestsOf, List.countP_nil] at enough
    omega
  | cons info rest ih =>
    unfold ownEntries
    by_cases pos : 0 < info.max
    · have left : requestsOf (info :: rest) = requestsOf rest + 1 := by simp [requestsOf, pos]
      have pushed := advancePending (writeFilled filled (.of memPid info))
      simp only [if_pos pos]
      split
      · rename_i last
        exact ⟨[info], [.of memPid info], rfl, pushed, by simp; omega, answeredOwn memPid info,
          by simp only; omega⟩
      · rename_i more
        obtain ⟨front, own, split_, done, count, answer, one⟩ :=
          ih pushed (by omega : 2 ≤ available - 1) (by omega)
        refine ⟨info :: front, .of memPid info :: own, ?_, ?_, ?_, ?_, one⟩
        · rw [List.cons_append, ← split_]
        · simpa using done
        · simp only [List.length_cons]
          omega
        · exact answeredAppend (answeredOwn memPid info) answer
    · have left : requestsOf (info :: rest) = requestsOf rest := by simp [requestsOf, pos]
      simp only [if_neg pos]
      obtain ⟨front, own, split_, done, count, answer, one⟩ := ih filled two (by omega)
      refine ⟨info :: front, own, ?_, done, count, ?_, one⟩
      · rw [List.cons_append, ← split_]
      · exact answeredAppend (answeredSkip memPid pos) answer

structure Merged (infos : List RequestTableInfo) (old e : SlabBpidInfo) : Prop where
  size : e.size = old.size
  memPid : e.memPid = old.memPid
  aligned : old.alignment ≤ e.alignment
  each : ∀ info ∈ infos, 0 < info.max → info.alignment ≤ e.alignment
  congruent : e.numBuffers % 2 ^ 32 = (old.numBuffers + maxOf infos) % 2 ^ 32
  atMost : e.numBuffers ≤ old.numBuffers + maxOf infos

theorem mergedRest (memPid : Nat) (infos : List RequestTableInfo) {old : SlabBpidInfo} (pending : Pending arr es old) :
    ∃ e, Pending (mergedEntry memPid true infos arr) es e ∧ Merged infos old e := by
  induction infos generalizing arr old with
  | nil => exact ⟨old, pending, rfl, rfl, le_refl _, by simp, by simp [maxOf], by simp [maxOf]⟩
  | cons info rest ih =>
    have sum : maxOf (info :: rest) = info.max + maxOf rest := by simp [maxOf]
    unfold mergedEntry
    by_cases pos : 0 < info.max
    · have read : arr.cells arr.position = some old := by
        rw [pending.cells, pending.position]
        simp
      simp only [if_pos pos, read]
      obtain ⟨e, done, merged⟩ := ih (writePending pending (old.merge info))
      have grown : info.alignment ≤ (old.merge info).alignment ∧
          old.alignment ≤ (old.merge info).alignment := by
        simp only [SlabBpidInfo.merge]
        split <;> omega
      refine ⟨e, done, merged.size, merged.memPid, grown.2.trans merged.aligned, ?_, ?_, ?_⟩
      · intro other mem posOther
        rcases List.mem_cons.mp mem with rfl | later
        · exact grown.1.trans merged.aligned
        · exact merged.each other later posOther
      · have step := merged.congruent
        simp only [SlabBpidInfo.merge, wrap] at step
        rw [step, sum]
        omega
      · have step := merged.atMost
        simp only [SlabBpidInfo.merge, wrap] at step
        rw [sum]
        omega
    · simp only [if_neg pos]
      obtain ⟨e, done, merged⟩ := ih pending
      have zero : info.max = 0 := Nat.eq_zero_of_not_pos pos
      refine ⟨e, done, merged.size, merged.memPid, merged.aligned, ?_, ?_, ?_⟩
      · intro other mem posOther
        rcases List.mem_cons.mp mem with rfl | later
        · exact absurd posOther pos
        · exact merged.each other later posOther
      · rw [merged.congruent, sum, zero, Nat.zero_add]
      · rw [sum, zero, Nat.zero_add]
        exact merged.atMost

def Descending (infos : List RequestTableInfo) : Prop :=
  infos.Pairwise (fun a b => b.buffSize ≤ a.buffSize)

theorem mergedAnswer (memPid : Nat) {infos : List RequestTableInfo} (filled : Filled arr es) (one : 1 ≤ requestsOf infos)
    (sorted : Descending infos) :
    ∃ e, Pending (mergedEntry memPid false infos arr) es e ∧ Answered memPid infos [e] := by
  induction infos with
  | nil => simp [requestsOf] at one
  | cons info rest ih =>
    obtain ⟨largest, sortedRest⟩ := List.pairwise_cons.mp sorted
    unfold mergedEntry
    by_cases pos : 0 < info.max
    · simp only [if_pos pos]
      obtain ⟨e, done, merged⟩ := mergedRest memPid rest
        (writeFilled filled (.of memPid info))
      refine ⟨e, done, by simpa [SlabBpidInfo.of] using merged.memPid, ?_, ?_, ?_⟩
      · intro other mem posOther
        refine ⟨e, List.mem_singleton_self e, ?_⟩
        rcases List.mem_cons.mp mem with rfl | later
        · exact ⟨merged.size.ge, merged.aligned⟩
        · exact ⟨(largest other later).trans merged.size.ge, merged.each other later posOther⟩
      · simpa [buffersOf, maxOf, SlabBpidInfo.of] using merged.congruent
      · simpa [buffersOf, maxOf, SlabBpidInfo.of] using merged.atMost
    · simp only [if_neg pos]
      have left : requestsOf (info :: rest) = requestsOf rest := by simp [requestsOf, pos]
      obtain ⟨e, done, answer⟩ := ih (by omega) sortedRest
      exact ⟨e, done, answeredAppend (answeredSkip memPid pos) answer⟩

theorem divideAnswer (memPid : Nat) {available : Nat} {table : List RequestTableInfo} (filled : Filled arr es) (one : 1 ≤ available)
    (enough : available ≤ requestsOf table) (sorted : Descending table.reverse) :
    ∃ own, Filled (slabDivideMemoryForBpids available memPid table arr) (es ++ own) ∧
      own.length = available ∧ Answered memPid table.reverse own := by
  have count : requestsOf table.reverse = requestsOf table := by simp [requestsOf]
  unfold slabDivideMemoryForBpids
  by_cases two : 1 < available
  · simp only [if_pos two]
    obtain ⟨front, own, split_, done, length, answer, left⟩ :=
      ownEntriesAnswer memPid filled two (count ▸ enough)
    have sortedRest : Descending (ownEntries memPid available table.reverse arr).1 := by
      rw [Descending, split_, List.pairwise_append] at sorted
      exact sorted.2.1
    obtain ⟨e, written, merged⟩ := mergedAnswer memPid done left sortedRest
    refine ⟨own ++ [e], ?_, by simpa using length, ?_⟩
    · rw [← List.append_assoc]
      exact advancePending written
    · rw [split_]
      exact answeredAppend answer merged
  · simp only [if_neg two]
    obtain ⟨e, written, merged⟩ := mergedAnswer memPid filled (by omega) sorted
    exact ⟨[e], advancePending written, by simp; omega, merged⟩

theorem descendingTable {memPid : Nat} {table : List RequestTableInfo} (ok : TableOk memPid table) :
    Descending table.reverse := by
  have sizes : (table.map RequestTableInfo.buffSize).Pairwise (· ≤ ·) := by
    rw [ok.sizes]
    decide
  rw [Descending, List.pairwise_reverse]
  exact List.pairwise_map.mp sizes

def entriesOf (es : List SlabBpidInfo) (i : Nat) : List SlabBpidInfo :=
  es.filter (fun e => decide (e.memPid = i))

theorem entriesOfOwn {memPid infos es} (answer : Answered memPid infos es) :
    entriesOf es memPid = es := by
  apply List.filter_eq_self.mpr
  intro e mem
  simpa using answer.partition e mem

theorem entriesOfOther {memPid infos es i} (answer : Answered memPid infos es) (other : i ≠ memPid) :
    entriesOf es i = [] := by
  apply List.filter_eq_nil_iff.mpr
  intro e mem same
  have eq : e.memPid = i := by simpa using same
  exact other (eq ▸ answer.partition e mem)

def requestsIn (data : MemoryTypesTable) (i : Nat) : List RequestTableInfo :=
  (data.memPidBufferRequest i).getD []

theorem requestsInCount (data : MemoryTypesTable) (i : Nat) :
    requestsOf (requestsIn data i) = requestedBpids data i := by
  unfold requestsOf requestsIn requestedBpids
  cases data.memPidBufferRequest i <;> rfl

variable {data : MemoryTypesTable}

theorem answeredNone {i : Nat} (zero : requestedBpids data i = 0) : Answered i (requestsIn data i).reverse [] := by
  have none : ∀ info ∈ requestsIn data i, info.max = 0 := by
    rw [← requestsInCount, requestsOf, List.countP_eq_zero] at zero
    intro info mem
    simpa using zero info mem
  have sum : maxOf (requestsIn data i).reverse = 0 := by
    apply List.sum_eq_zero
    simpa using none
  refine ⟨by simp, ?_, by rw [sum]; rfl, Nat.zero_le _⟩
  intro info mem pos
  have := none info (List.mem_reverse.mp mem)
  omega

theorem fillStep (wf : WellFormed data) {available : Nat → Nat} (fair : Fair (requestedBpids data) available)
    (filled : Filled arr es) (i : Nat) :
    ∃ own, Filled (fillPartition data available arr i) (es ++ own) ∧ own.length = available i ∧
      Answered i (requestsIn data i).reverse own := by
  unfold fillPartition
  split
  · rename_i pos
    have asked : 0 < requestedBpids data i := by
      by_contra zero
      have := fair.none i (Nat.eq_zero_of_not_pos zero)
      omega
    apply divideAnswer i filled pos
    · rw [← requestsIn, requestsInCount]
      exact (fair.some i asked).2
    · rw [← requestsIn]
      cases found : data.memPidBufferRequest i with
      | none => simp [requestsIn, found, Descending]
      | some table =>
        simp only [requestsIn, found, Option.getD_some]
        exact descendingTable (wf found)
  · rename_i none
    have zero : requestedBpids data i = 0 := by
      by_contra pos
      have := (fair.some i (Nat.pos_of_ne_zero pos)).1
      omega
    exact ⟨[], by simpa using filled, by simp; omega, answeredNone zero⟩

theorem fillRun (wf : WellFormed data) {available : Nat → Nat}
    (fair : Fair (requestedBpids data) available) {ps : List Nat} (nodup : ps.Nodup) (filled : Filled arr es) :
    ∃ new, Filled (ps.foldl (fillPartition data available) arr) (es ++ new) ∧
      new.length = (ps.map available).sum ∧
      (∀ i ∈ ps, (entriesOf new i).length = available i ∧
        Answered i (requestsIn data i).reverse (entriesOf new i)) ∧
      ∀ i, i ∉ ps → entriesOf new i = [] := by
  induction ps generalizing arr es with
  | nil => exact ⟨[], by simpa using filled, rfl, by simp, by simp [entriesOf]⟩
  | cons p ps ih =>
    obtain ⟨fresh, nodupRest⟩ := List.nodup_cons.mp nodup
    obtain ⟨own, step, length, answer⟩ := fillStep wf fair filled p
    obtain ⟨new, done, total, answers, others⟩ := ih nodupRest step
    have parts : ∀ i, entriesOf (own ++ new) i = entriesOf own i ++ entriesOf new i := by
      intro i
      simp [entriesOf]
    refine ⟨own ++ new, by simpa using done, by simp [length, total], ?_, ?_⟩
    · intro i mem
      rw [parts i]
      rcases List.mem_cons.mp mem with rfl | later
      · rw [others i fresh, entriesOfOwn answer, List.append_nil]
        exact ⟨length, answer⟩
      · have ne : i ≠ p := by
          rintro rfl
          exact fresh later
        rw [entriesOfOther answer ne, List.nil_append]
        exact answers i later
    · intro i outside
      rw [List.mem_cons, not_or] at outside
      rw [parts i, entriesOfOther answer outside.1, others i outside.2, List.append_nil]

section Requests

variable {rs : List Registration} {r : Registration} {data next : MemoryTypesTable} {i j : Nat}
  {info : RequestTableInfo}

def asked (rs : List Registration) (i j : Nat) : Nat :=
  (rs.map fun r => if r.memPid = i ∧ r.sizeClass = some j then r.maxBuffs else 0).sum

def askedIn (rs : List Registration) (i : Nat) : Nat :=
  (rs.map fun r => if r.memPid = i then r.maxBuffs else 0).sum

-- The table counts in `uint32_t`: a class whose sum is a multiple of `2 ^ 32` is not requested.
def wanted (rs : List Registration) (i j : Nat) : Nat := wrap 32 (asked rs i j)

def requestedClasses (rs : List Registration) (i : Nat) : Nat :=
  (List.range slabBuffSizesArr.length).countP fun j => decide (0 < wanted rs i j)

def requestedPartitions (rs : List Registration) : Nat :=
  partitions.countP fun i => decide (0 < requestedClasses rs i)

structure Holds (rs : List Registration) (i j : Nat) (info : RequestTableInfo) : Prop where
  extra : info.extra = 0
  committed : info.committedBufs = wanted rs i j
  max : info.max = wanted rs i j
  aligned : ∀ r ∈ rs, r.memPid = i → r.sizeClass = some j → r.alignment ≤ info.alignment

structure Recorded (rs : List Registration) (data : MemoryTypesTable) : Prop where
  classed : ∀ r ∈ rs, ∃ j < slabBuffSizesArr.length, r.sizeClass = some j
  absent : ∀ i, data.memPidBufferRequest i = none → ∀ r ∈ rs, r.memPid ≠ i
  held : ∀ i table, data.memPidBufferRequest i = some table →
    ∀ j info, table[j]? = some info → Holds rs i j info

theorem wantedNone (none : ∀ r ∈ rs, ¬(r.memPid = i ∧ r.sizeClass = some j)) : wanted rs i j = 0 := by
  have zero : asked rs i j = 0 := by
    refine List.sum_eq_zero fun n mem => ?_
    obtain ⟨r, among, rfl⟩ := List.mem_map.mp mem
    exact if_neg (none r among)
  rw [wanted, zero]
  rfl

theorem holdsOther (holds : Holds rs i j info) (other : ¬(r.memPid = i ∧ r.sizeClass = some j)) :
    Holds (r :: rs) i j info := by
  have same : wanted (r :: rs) i j = wanted rs i j := by
    rw [wanted, asked, List.map_cons, List.sum_cons, if_neg other, Nat.zero_add, wanted, asked]
  refine ⟨holds.extra, holds.committed.trans same.symm, holds.max.trans same.symm, ?_⟩
  intro q mem place size
  rcases List.mem_cons.mp mem with rfl | old
  · exact absurd ⟨place, size⟩ other
  · exact holds.aligned q old place size

theorem holdsAdd (holds : Holds rs i j info) (place : r.memPid = i) (size : r.sizeClass = some j) :
    Holds (r :: rs) i j (info.add r) := by
  have sum : wanted (r :: rs) i j = wrap 32 (info.committedBufs + r.maxBuffs) := by
    rw [wanted, asked, List.map_cons, List.sum_cons, if_pos ⟨place, size⟩, holds.committed, wanted, asked]
    unfold wrap
    omega
  have extra : (info.add r).extra = 0 := by simp [RequestTableInfo.add, holds.extra]
  refine ⟨extra, sum.symm, ?_, ?_⟩
  · rw [sum]
    simp [RequestTableInfo.add, holds.extra, wrap]
  · intro q mem place size
    have grown : info.alignment ≤ (info.add r).alignment ∧ r.alignment ≤ (info.add r).alignment := by
      simp only [RequestTableInfo.add]
      split <;> omega
    rcases List.mem_cons.mp mem with rfl | old
    · exact grown.2
    · exact (holds.aligned q old place size).trans grown.1

theorem recordedRegister {memExists strict heap} (recorded : Recorded rs data)
    (h : slabRegisterContextBufferRequirements memExists strict heap data r = .ok next) :
    Recorded (r :: rs) next := by
  unfold slabRegisterContextBufferRequirements at h
  split at h
  · cases h
  · rename_i index checked
    cases h
    have class_ := checkedClass checked
    have base : ∀ j info, ((data.memPidBufferRequest r.memPid).getD (freshTable heap))[j]? = some info →
        Holds rs r.memPid j info := by
      intro j info read
      cases old : data.memPidBufferRequest r.memPid with
      | some table =>
        rw [old, Option.getD_some] at read
        exact recorded.held _ _ old j info read
      | none =>
        rw [old, Option.getD_none, freshTable, List.getElem?_mapIdx, Option.map_eq_some_iff] at read
        obtain ⟨size, -, rfl⟩ := read
        have none : ∀ q ∈ rs, ¬(q.memPid = r.memPid ∧ q.sizeClass = some j) :=
          fun q mem both => recorded.absent _ old q mem both.1
        exact ⟨rfl, (wantedNone none).symm, (wantedNone none).symm,
          fun q mem place size => absurd ⟨place, size⟩ (none q mem)⟩
    refine ⟨?_, ?_, ?_⟩
    · intro q mem
      rcases List.mem_cons.mp mem with rfl | old
      · exact ⟨index, (List.findIdx?_eq_some_iff_getElem.mp class_).1, class_⟩
      · exact recorded.classed q old
    · intro i none q mem
      by_cases same : i = r.memPid
      · simp only [same, Function.update_self] at none
        cases none
      · simp only [Function.update_of_ne same] at none
        rcases List.mem_cons.mp mem with rfl | old
        · exact Ne.symm same
        · exact recorded.absent i none q old
    · intro i table found j info read
      by_cases same : i = r.memPid
      · subst same
        simp only [Function.update_self, Option.some.injEq] at found
        subst found
        rw [List.getElem?_modify, Option.map_eq_map, Option.map_eq_some_iff] at read
        obtain ⟨old, read, rfl⟩ := read
        split
        · rename_i here
          exact holdsAdd (base j old read) rfl (here ▸ class_)
        · rename_i there
          refine holdsOther (base j old read) fun both => there ?_
          exact Option.some.inj (class_.symm.trans both.2)
      · simp only [Function.update_of_ne same] at found
        exact holdsOther (recorded.held i table found j info read) fun both => same both.1.symm

theorem registeredRecorded {memExists strict} (h : Registered memExists strict rs data) :
    Recorded rs data := by
  induction h with
  | start => exact ⟨by simp, by simp, fun i table found => by cases found⟩
  | register heap r _ _ done ih => exact recordedRegister ih done

theorem maximaWanted (wf : WellFormed data) (recorded : Recorded rs data) (i : Nat) :
    (requestsIn data i).map RequestTableInfo.max = (List.range slabBuffSizesArr.length).map (wanted rs i) ∨
      requestsIn data i = [] ∧ ∀ j, wanted rs i j = 0 := by
  cases found : data.memPidBufferRequest i with
  | none =>
    refine .inr ⟨by simp [requestsIn, found], fun j => wantedNone fun q mem both => ?_⟩
    exact recorded.absent i found q mem both.1
  | some table =>
    refine .inl (List.ext_getElem? fun j => ?_)
    have length : table.length = slabBuffSizesArr.length := by rw [← (wf found).sizes, List.length_map]
    rw [requestsIn, found, Option.getD_some, List.getElem?_map, List.getElem?_map]
    rcases Nat.lt_or_ge j table.length with inside | outside
    · rw [List.getElem?_eq_getElem inside, List.getElem?_range (length ▸ inside), Option.map_some,
        Option.map_some, (recorded.held i table found j _ (List.getElem?_eq_getElem inside)).max]
    · rw [List.getElem?_eq_none outside, List.getElem?_eq_none (by simpa [← length] using outside)]
      rfl

theorem classesRecorded (wf : WellFormed data) (recorded : Recorded rs data) :
    requestedBpids data = requestedClasses rs := by
  funext i
  rw [← requestsInCount, requestsOf, requestedClasses]
  have positive : (fun info : RequestTableInfo => decide (0 < info.max)) =
      (fun n => decide (0 < n)) ∘ RequestTableInfo.max := rfl
  rcases maximaWanted wf recorded i with maxima | ⟨none, zero⟩
  · rw [positive, ← List.countP_map, maxima, List.countP_map]
    rfl
  · simp [none, zero]

theorem sumWrapped (f : Nat → Nat) (l : List Nat) :
    (l.map fun j => wrap 32 (f j)).sum % 2 ^ 32 = (l.map f).sum % 2 ^ 32 ∧
      (l.map fun j => wrap 32 (f j)).sum ≤ (l.map f).sum := by
  induction l with
  | nil => exact ⟨rfl, le_refl _⟩
  | cons j l ih =>
    simp only [List.map_cons, List.sum_cons, wrap] at ih ⊢
    omega

theorem askedInClasses (classed : ∀ r ∈ rs, ∃ j < slabBuffSizesArr.length, r.sizeClass = some j) (i : Nat) :
    askedIn rs i = ((List.range slabBuffSizesArr.length).map (asked rs i)).sum := by
  induction rs with
  | nil => exact (List.sum_eq_zero (by simp [asked])).symm
  | cons r rs ih =>
    obtain ⟨⟨c, below, size⟩, rest⟩ := List.forall_mem_cons.mp classed
    have each : asked (r :: rs) i = fun j => (if c = j then if r.memPid = i then r.maxBuffs else 0 else 0) +
        asked rs i j := by
      funext j
      simp only [asked, List.map_cons, List.sum_cons, size, Option.some.injEq, ← ite_and, and_comm]
    have one : ((List.range slabBuffSizesArr.length).map fun j =>
        if c = j then if r.memPid = i then r.maxBuffs else 0 else 0).sum =
        if r.memPid = i then r.maxBuffs else 0 := by
      rw [← List.sum_toFinset _ List.nodup_range, Finset.sum_ite_eq,
        if_pos (List.mem_toFinset.mpr (List.mem_range.mpr below))]
    rw [each, List.sum_map_add, one, ← ih rest]
    rfl

theorem maxOfWanted (wf : WellFormed data) (recorded : Recorded rs data) (i : Nat) :
    maxOf (requestsIn data i) % 2 ^ 32 = askedIn rs i % 2 ^ 32 ∧ maxOf (requestsIn data i) ≤ askedIn rs i := by
  rw [askedInClasses recorded.classed]
  have wrapped := sumWrapped (asked rs i) (List.range slabBuffSizesArr.length)
  rcases maximaWanted wf recorded i with maxima | ⟨none, zero⟩
  · rw [maxOf, maxima]
    exact wrapped
  · have sum : ((List.range slabBuffSizesArr.length).map (wanted rs i)).sum = maxOf [] :=
      List.sum_eq_zero (by simpa using fun j _ => zero j)
    rw [none, ← sum]
    exact wrapped

theorem wantedHeld (wf : WellFormed data) (recorded : Recorded rs data) (pos : 0 < wanted rs i j) :
    i ∈ partitions ∧ ∃ info ∈ requestsIn data i, 0 < info.max ∧
      ∀ r ∈ rs, r.memPid = i → r.sizeClass = some j → r.buffSize ≤ info.buffSize ∧ r.alignment ≤ info.alignment := by
  have some_ : ∃ r ∈ rs, r.memPid = i ∧ r.sizeClass = some j := by
    by_contra none
    rw [wantedNone fun r mem both => none ⟨r, mem, both⟩] at pos
    exact Nat.lt_irrefl _ pos
  obtain ⟨r, mem, place, size⟩ := some_
  cases found : data.memPidBufferRequest i with
  | none => exact absurd place (recorded.absent i found r mem)
  | some table =>
    have length : table.length = slabBuffSizesArr.length := by rw [← (wf found).sizes, List.length_map]
    have known : j < slabBuffSizesArr.length := (List.findIdx?_eq_some_iff_getElem.mp size).1
    have inside : j < table.length := length ▸ known
    have holds := recorded.held i table found j _ (List.getElem?_eq_getElem inside)
    refine ⟨by rcases (wf found).known with rfl | rfl | rfl <;> decide, table[j], ?_, holds.max ▸ pos, ?_⟩
    · rw [requestsIn, found]
      exact List.getElem_mem inside
    · intro q among place size
      have sizes : table[j].buffSize = slabBuffSizesArr[j] := by
        simp only [← (wf found).sizes, List.getElem_map]
      refine ⟨?_, holds.aligned q among place size⟩
      rw [sizes]
      simpa using (List.findIdx?_eq_some_iff_getElem.mp size).2.1

end Requests

structure Distributed (rs : List Registration) (numBpids : Nat) (out : Distribution)
    (es : List SlabBpidInfo) : Prop where
  within : out.numBpids ≤ numBpids
  written : ∀ j, out.cells j = es[j]?
  length : es.length = out.numBpids
  rewound : out.position = 0
  fair : Fair (requestedClasses rs) out.availablePerPartition
  sum : (partitions.map out.availablePerPartition).sum = out.numBpids
  each : ∀ i ∈ partitions, (entriesOf es i).length = out.availablePerPartition i
  covered : ∀ i j, 0 < wanted rs i j → ∃ e ∈ entriesOf es i,
    ∀ r ∈ rs, r.memPid = i → r.sizeClass = some j → r.buffSize ≤ e.size ∧ r.alignment ≤ e.alignment
  congruent : ∀ i ∈ partitions, buffersOf (entriesOf es i) % 2 ^ 32 = askedIn rs i % 2 ^ 32
  exact : ∀ i ∈ partitions, askedIn rs i < 2 ^ 32 → buffersOf (entriesOf es i) = askedIn rs i

theorem distributedEntries {rs : List Registration} (wf : WellFormed data)
    (recorded : Recorded rs data) {numBpids used : Nat} {s : Shares}
    (counted : Proportioned (requestedBpids data) numBpids (s, used)) :
    let arr := partitions.foldl (fillPartition data s.availablePerPartition) ⟨fun _ => none, 0⟩
    ∃ es, Distributed rs numBpids
      ⟨used, arr.cells, arr.position - used, s.availablePerPartition⟩ es := by
  have nodup : partitions.Nodup := List.nodup_range
  have start : Filled ⟨fun _ => none, 0⟩ [] := ⟨rfl, by simp⟩
  obtain ⟨es, filled, length, answers, _⟩ := fillRun wf counted.fair nodup start
  rw [List.nil_append] at filled
  have total : es.length = used := length.trans counted.sum
  have sameMax : ∀ i, maxOf (requestsIn data i).reverse = maxOf (requestsIn data i) := by
    intro i
    simp [maxOf]
  refine ⟨es, counted.within, filled.cells, total, ?_, classesRecorded wf recorded ▸ counted.fair,
    counted.sum, fun i mem => (answers i mem).1, ?_, ?_, ?_⟩
  · simp only [filled.position, total, Int.sub_self]
  · intro i j pos
    obtain ⟨mem, info, held, used, most⟩ := wantedHeld wf recorded pos
    obtain ⟨e, found, size, aligned⟩ := (answers i mem).2.covered info (List.mem_reverse.mpr held) used
    exact ⟨e, found, fun r among place class_ => ⟨(most r among place class_).1.trans size,
      (most r among place class_).2.trans aligned⟩⟩
  · intro i mem
    rw [← (maxOfWanted wf recorded i).1, ← sameMax i]
    exact (answers i mem).2.congruent
  · intro i mem small
    have congruent := (answers i mem).2.congruent
    have atMost := (answers i mem).2.atMost
    obtain ⟨whole, most⟩ := maxOfWanted wf recorded i
    rw [sameMax i] at congruent atMost
    rw [whole, Nat.mod_eq_of_lt small, Nat.mod_eq_of_lt (by omega)] at congruent
    exact congruent

theorem requestsDistributed {memExists : Nat → Bool} {strict : Bool} {rs : List Registration}
    {data : MemoryTypesTable} (registered : Registered memExists strict rs data)
    (malloc : Nat → Bool) (numBpids : Nat) :
    (∀ out, slabProccessRegisteredRequests malloc data numBpids = .ok out →
      requestedPartitions rs ≤ numBpids ∧ ∃ es, Distributed rs numBpids out es) ∧
    (requestedPartitions rs ≤ numBpids →
      (∀ entries ≤ numBpids, malloc (sizeofSlabBpidInfo * entries) = true) →
      ∃ out, slabProccessRegisteredRequests malloc data numBpids = .ok out) := by
  have wf : WellFormed data := registeredWellFormed registered
  have recorded := registeredRecorded registered
  have count : requestedPartitions rs = numPartitions data := by
    rw [requestedPartitions, numPartitions, classesRecorded wf recorded]
  rw [count]
  rcases Nat.lt_or_ge numBpids (numPartitions data) with few | enough
  · constructor
    · intro out done
      simp only [slabProccessRegisteredRequests, proportionRefused few] at done
      cases done
    · intro enough
      omega
  · obtain ⟨⟨s, used⟩, found, counted⟩ := proportionFound wf enough
    constructor
    · intro out done
      simp only [slabProccessRegisteredRequests, found] at done
      split at done
      · cases done
        exact ⟨enough, distributedEntries wf recorded counted⟩
      · cases done
    · intro _ grants
      simp only [slabProccessRegisteredRequests, found, grants used counted.within, if_true]
      exact ⟨_, rfl⟩

theorem requestsDistributedSmall :
    ∃ data, Registered (fun _ => true) false [⟨4, 4, 100, 8, memPartPeb, 0, 0⟩] data ∧
      ∃ out es, slabProccessRegisteredRequests (fun _ => true) data 3 = .ok out ∧
        Distributed [⟨4, 4, 100, 8, memPartPeb, 0, 0⟩] 3 out es := by
  have registered : Registered (fun _ => true) false [⟨4, 4, 100, 8, memPartPeb, 0, 0⟩] _ :=
    .register (fun _ => 0) _ .start ⟨by decide, by decide⟩ (by rfl)
  obtain ⟨holds, succeeds⟩ := requestsDistributed registered (fun _ => true) 3
  obtain ⟨out, done⟩ := succeeds (by decide) (fun _ _ => rfl)
  obtain ⟨_, es, distributed⟩ := holds out done
  exact ⟨_, registered, out, es, done, distributed⟩

-- Two classes that wrap when they are merged, and one class that is registered twice.
theorem bufferCountWraps :
    (∃ rs data, Registered (fun _ => true) false rs data ∧ askedIn rs memPartDpDdr = 2 ^ 32 ∧
      ∃ out, slabProccessRegisteredRequests (fun _ => true) data 1 = .ok out ∧ out.numBpids = 1 ∧
        out.cells 0 = some ⟨56, memPartDpDdr, 8, 0, 0⟩) ∧
    ∃ rs data, Registered (fun _ => true) false rs data ∧ asked rs memPartDpDdr 0 = 2 ^ 32 ∧
      ∃ out, slabProccessRegisteredRequests (fun _ => true) data 0 = .ok out := by
  have first : Registered (fun _ => true) false [⟨2 ^ 31, 2 ^ 31, 24, 8, memPartDpDdr, 0, 0⟩] _ :=
    .register (fun _ => 0) _ .start ⟨by decide, by decide⟩ (by rfl)
  have second : Registered (fun _ => true) false (⟨2 ^ 31, 2 ^ 31, 56, 8, memPartDpDdr, 0, 0⟩ :: _) _ :=
    .register (fun _ => 0) _ first ⟨by decide, by decide⟩ (by rfl)
  have again : Registered (fun _ => true) false (⟨2 ^ 31, 2 ^ 31, 24, 8, memPartDpDdr, 0, 0⟩ :: _) _ :=
    .register (fun _ => 0) _ first ⟨by decide, by decide⟩ (by rfl)
  exact ⟨⟨_, _, second, by decide, _, rfl, by decide, by decide⟩,
    _, _, again, by decide, _, rfl⟩

end Flexbuild.SlabBoot
