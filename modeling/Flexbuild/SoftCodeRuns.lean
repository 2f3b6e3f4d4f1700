import Flexbuild.SoftCode

/-! Runs of the machine. Code without labels and jumps runs from one end to the other, and the end of a
run does not depend on how it is looked at. -/
namespace Flexbuild.SoftCode
open ByteMemory (Byte)
open SoftIr (Word CObject CENode)
open Traces (run)

variable {env : Env} {whole code rest : List CInstruction} {s s' : State} {es : List Read}

def Leads (env : Env) (whole : List CInstruction) (a : List CInstruction × State) (es : List Read)
    (b : List CInstruction × State) : Prop :=
  ∃ k, run (machine env whole) k a = (es, b)

theorem Leads.same {a : List CInstruction × State} : Leads env whole a [] a := ⟨0, rfl⟩

theorem Leads.step {a b : List CInstruction × State} {e : Option Read} (next : machine env whole a = some (e, b)) :
    Leads env whole a e.toList b :=
  ⟨1, Traces.runOne next⟩

theorem Leads.then {a b c : List CInstruction × State} {fs : List Read} (first : Leads env whole a es b)
    (second : Leads env whole b fs c) : Leads env whole a (es ++ fs) c := by
  obtain ⟨j, ran⟩ := first
  obtain ⟨k, later⟩ := second
  refine ⟨j + k, ?_⟩
  rw [Traces.runAdd, ran, later]

theorem Ends.once {fs : List Read} {t : State} (first : Ends env code s es s') (second : Ends env code s fs t) :
    fs = es ∧ t = s' := by
  obtain ⟨j, ran⟩ := first
  obtain ⟨k, again⟩ := second
  have longer (i : Nat) {gs : List Read} {u : State} (d : Nat) (here : run (machine env code) i (code, s) = (gs, ([], u))) :
      run (machine env code) (i + d) (code, s) = (gs, ([], u)) := by
    rw [Traces.runAdd, here, Traces.runStopped rfl, List.append_nil]
  have same := longer k j again
  rw [Nat.add_comm, longer j k ran] at same
  cases same
  exact ⟨rfl, rfl⟩

def CInstruction.straight : CInstruction → Bool
  | .label _ | .jmp _ | .compareWr0ToIv _ _ _ => false
  | _ => true

def Straight (code : List CInstruction) : Prop := ∀ i ∈ code, i.straight = true

theorem Straight.append {others : List CInstruction} (first : Straight code) (second : Straight others) :
    Straight (code ++ others) := by
  intro i member
  rcases List.mem_append.mp member with front | back
  · exact first i front
  · exact second i back

def execAll (env : Env) (s : State) (code : List CInstruction) : State := code.foldl (exec env) s

def readsAll (env : Env) : State → List CInstruction → List Read
  | _, [] => []
  | s, i :: rest => (reads s i).toList ++ readsAll env (exec env s i) rest

theorem execAllAppend (first second : List CInstruction) (s : State) :
    execAll env s (first ++ second) = execAll env (execAll env s first) second :=
  List.foldl_append

theorem readsAllAppend (first second : List CInstruction) : ∀ s,
    readsAll env s (first ++ second) = readsAll env s first ++ readsAll env (execAll env s first) second := by
  induction first with
  | nil => exact fun _ => rfl
  | cons i first later =>
    intro s
    rw [List.cons_append, readsAll, later, readsAll, List.append_assoc]
    rfl

theorem straightStep {i : CInstruction} (plain : i.straight = true) :
    machine env whole (i :: rest, s) = some (reads s i, rest, exec env s i) := by
  cases i <;> first | rfl | cases plain

theorem straightLeads (plain : Straight code) : ∀ s,
    Leads env whole (code ++ rest, s) (readsAll env s code) (rest, execAll env s code) := by
  induction code with
  | nil => exact fun _ => Leads.same
  | cons i code later =>
    intro s
    have first : Leads env whole (i :: (code ++ rest), s) (reads s i).toList (code ++ rest, exec env s i) :=
      Leads.step (straightStep (plain i List.mem_cons_self))
    exact first.then (later (fun j member => plain j (List.mem_cons_of_mem _ member)) (exec env s i))

theorem straightEnds (plain : Straight code) (s : State) : Ends env code s (readsAll env s code) (execAll env s code) := by
  have all := @straightLeads env code _ [] plain s
  rwa [List.append_nil] at all

theorem labelStep (name : Nat) : Leads env whole (.label name :: rest, s) [] (rest, s) :=
  @Leads.step env whole _ _ none rfl

theorem jmpStep {label : Nat} {target : List CInstruction} (found : findLabel label whole = some target) :
    Leads env whole (.jmp label :: rest, s) [] (target, s) := by
  refine @Leads.step env whole _ _ none ?_
  rw [machine, found]
  rfl

theorem compareTaken {label : Nat} {cond : CondOperator} {value : Word} {target : List CInstruction}
    (found : findLabel label whole = some target) (holds : cond.holds s.wr0 value = true) :
    Leads env whole (.compareWr0ToIv label cond value :: rest, s) [] (target, s) := by
  refine @Leads.step env whole _ _ none ?_
  rw [machine, if_pos holds, found]
  rfl

theorem compareNotTaken {label : Nat} {cond : CondOperator} {value : Word} (fails : cond.holds s.wr0 value = false) :
    Leads env whole (.compareWr0ToIv label cond value :: rest, s) [] (rest, s) := by
  refine @Leads.step env whole _ _ none ?_
  rw [machine, if_neg (by simp [fails])]

theorem findPast (plain : Straight code) (name : Nat) : findLabel name (code ++ rest) = findLabel name rest := by
  induction code with
  | nil => rfl
  | cons i code later =>
    rw [List.cons_append, findLabel, if_neg, later fun j member => plain j (List.mem_cons_of_mem _ member)]
    rintro rfl
    cases plain _ List.mem_cons_self

end Flexbuild.SoftCode
