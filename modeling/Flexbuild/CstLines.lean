import Flexbuild.Numerals
import Mathlib.Data.List.GetD

/-! How the signing tool reads its input file. A line is measured up to its newline, read again from where it
began, stripped and searched for the name of a field; the values are what `strtok` gives behind the first piece.
A newline as the first character does not end what is measured. -/
namespace Flexbuild.Cst
open Numerals (Text)

def maxLineSize : Nat := 1024

def tableSize : Nat := 64

inductive Stop
  | unfinished
  | outOfBounds
  deriving DecidableEq

structure File where
  content : Text
  pos : Nat

structure InputField where
  value : List (Option Text)
  count : Int
  deriving DecidableEq

def calLineLoop : Text → Nat → Char → Nat × Nat
  | [], ctr, ch => if ch = '\n' ∧ ctr ≠ 1 then (ctr, ctr) else (0, ctr)
  | c :: rest, ctr, ch => if ch = '\n' ∧ ctr ≠ 1 then (ctr, ctr) else calLineLoop rest (ctr + 1) c

def calLineSize (fp : File) : Nat × File :=
  let measured := calLineLoop (fp.content.drop fp.pos) 0 'a'
  (measured.1, { fp with pos := fp.pos + measured.2 })

def fseekBack (fp : File) (lineSize : Nat) : File :=
  if lineSize ≤ fp.pos then { fp with pos := fp.pos - lineSize } else fp

def fread (fp : File) (lineSize : Nat) : Text × File :=
  let line := (fp.content.drop fp.pos).take lineSize
  (line, { fp with pos := fp.pos + line.length })

def isSpace (c : Char) : Bool := c ∈ [' ', '\t', '\n', '\x0b', '\x0c', '\r']

def removeWhitespace : Text → Text
  | [] => []
  | c :: rest =>
      if c = '\x00' then []
      else if c ∈ ['{', '}', '[', ']', '(', ')'] ∨ isSpace c then removeWhitespace rest
      else c :: removeWhitespace rest

def isWord (c : Char) : Bool := c.isAlphanum || c = '_'

def strstr (name : Text) : Text → Option Nat
  | [] => if name = [] then some 0 else none
  | c :: rest => if name.isPrefixOf (c :: rest) then some 0 else (strstr name rest).map (· + 1)

def foundWholeWord (lineData fieldName : Text) : Bool :=
  match strstr fieldName lineData with
  | none => false
  | some i =>
      if i ≠ 0 ∧ isWord (lineData.getD (i - 1) '\x00') then false
      else !isWord (lineData.getD (i + fieldName.length) '\x00')

def isDelim (c : Char) : Bool := c ∈ [',', ';', '=']

def strtok (line : Text) : List Text := (line.splitOnP isDelim).filter (· ≠ [])

def fieldLoop : List Text → Nat → List (Option Text) → Except Stop InputField
  | [], i, value => .ok ⟨value, i - 1⟩
  | _ :: rest, i, value =>
      if i < tableSize then fieldLoop rest (i + 1) (value.set i rest.head?) else .error .outOfBounds

def getFieldFromFile (line : Text) : Except Stop InputField :=
  fieldLoop (strtok line) 0 (List.replicate tableSize none)

def stands (fieldName lineData : Text) : Bool := foundWholeWord lineData fieldName && lineData.head? ≠ some '#'

def findLoop (fieldName : Text) : Nat → File → Nat → Except Stop InputField
  | 0, _, _ => .error .unfinished
  | fuel + 1, fp, lineSize =>
      let (line, fp) := fread fp lineSize
      if line = [] then .ok ⟨List.replicate tableSize none, 0⟩
      else if maxLineSize ≤ lineSize then .error .outOfBounds
      else
        let lineData := removeWhitespace line
        if stands fieldName lineData then getFieldFromFile lineData
        else
          let (lineSize, fp) := calLineSize fp
          findLoop fieldName fuel (fseekBack fp lineSize) lineSize

def findValueFromFile (fuel : Nat) (fieldName content : Text) : Except Stop InputField :=
  let (lineSize, fp) := calLineSize ⟨content, 0⟩
  findLoop fieldName fuel (fseekBack fp lineSize) lineSize

section Reads

def readsFrom : Text → Text → List Text
  | _, [] => []
  | line, c :: rest => if c = '\n' ∧ line ≠ [] then (line ++ [c]) :: readsFrom [] rest else readsFrom (line ++ [c]) rest

def reads (content : Text) : List Text := readsFrom [] content

theorem measured {line rest : Text} {ch : Char} (inside : ¬(ch = '\n' ∧ line.length ≠ 1)) :
    (readsFrom line rest = [] → calLineLoop rest line.length ch = (0, line.length + rest.length)) ∧
    ∀ first more, readsFrom line rest = first :: more → ∃ taken behind, rest = taken ++ behind ∧ first = line ++ taken ∧
      taken ≠ [] ∧ more = reads behind ∧ calLineLoop rest line.length ch = (first.length, first.length) := by
  induction rest generalizing line ch with
  | nil =>
    refine ⟨fun _ => ?_, fun first more given => ?_⟩
    · rw [calLineLoop, if_neg inside]
      rfl
    · cases given
  | cons c rest later =>
    rw [readsFrom, calLineLoop, if_neg inside]
    have longer : (line ++ [c]).length = line.length + 1 := List.length_append
    by_cases ends : c = '\n' ∧ line ≠ []
    · rw [if_pos ends]
      refine ⟨(nomatch ·), fun first more given => ?_⟩
      cases given
      have some : line.length + 1 ≠ 1 := fun one => ends.2 (List.length_eq_zero_iff.1 (by omega))
      refine ⟨[c], rest, rfl, rfl, List.cons_ne_nil _ _, rfl, ?_⟩
      rw [longer]
      cases rest with
      | nil => rw [calLineLoop, if_pos ⟨ends.1, some⟩]
      | cons => rw [calLineLoop, if_pos ⟨ends.1, some⟩]
    · rw [if_neg ends]
      have inside' : ¬(c = '\n' ∧ (line ++ [c]).length ≠ 1) := by
        rintro ⟨newline, long⟩
        refine ends ⟨newline, fun none => long ?_⟩
        rw [none]
        rfl
      obtain ⟨none, some⟩ := later inside'
      rw [longer] at none some
      refine ⟨fun given => ?_, fun first more given => ?_⟩
      · rw [none given, List.length_cons]
        congr 1
        omega
      · obtain ⟨taken, behind, rfl, rfl, -, others, size⟩ := some first more given
        exact ⟨c :: taken, behind, rfl, List.append_assoc _ _ _, List.cons_ne_nil _ _, others, size⟩

end Reads

def search (fieldName : Text) : List Text → Except Stop InputField
  | [] => .ok ⟨List.replicate tableSize none, 0⟩
  | line :: more =>
      if maxLineSize ≤ line.length then .error .outOfBounds
      else if stands fieldName (removeWhitespace line) then getFieldFromFile (removeWhitespace line)
      else search fieldName more

section Runs

variable {fieldName content : Text}

theorem turn (pos : Nat) (inside : pos ≤ content.length) :
    let (lineSize, fp) := calLineSize ⟨content, pos⟩
    (reads (content.drop pos) = [] → lineSize = 0) ∧
    ∀ line more, reads (content.drop pos) = line :: more → line ≠ [] ∧ lineSize = line.length ∧
      fseekBack fp lineSize = ⟨content, pos⟩ ∧ (content.drop pos).take line.length = line ∧
      pos + line.length ≤ content.length ∧ reads (content.drop (pos + line.length)) = more := by
  obtain ⟨none, some⟩ := @measured [] (content.drop pos) 'a' (by decide)
  refine ⟨fun given => congrArg Prod.fst (none given), fun line more given => ?_⟩
  obtain ⟨taken, behind, whole, same, full, others, size⟩ := some line more given
  rw [List.nil_append] at same
  subst same
  change calLineLoop (content.drop pos) 0 'a' = _ at size
  have long : line.length + behind.length = content.length - pos := by
    rw [← List.length_append, ← whole, List.length_drop]
  have skipped : content.drop (pos + line.length) = behind := by
    rw [← List.drop_drop, whole, List.drop_left]
  change _ ∧ (calLineLoop (content.drop pos) 0 'a').1 = _ ∧ _
  refine ⟨full, by rw [size], ?_, by rw [whole, List.take_left], by omega, by rw [skipped, others]⟩
  change fseekBack ⟨content, pos + (calLineLoop (content.drop pos) 0 'a').2⟩ (calLineLoop (content.drop pos) 0 'a').1 = _
  rw [size]
  dsimp only
  rw [fseekBack, if_pos (Nat.le_add_left _ _), Nat.add_sub_cancel]

theorem searched (records : List Text) (fuel pos : Nat) (inside : pos ≤ content.length)
    (given : reads (content.drop pos) = records) (enough : records.length < fuel) :
    (let (lineSize, fp) := calLineSize ⟨content, pos⟩
     findLoop fieldName fuel (fseekBack fp lineSize) lineSize) = search fieldName records := by
  induction records generalizing fuel pos with
  | nil =>
    obtain ⟨none, -⟩ := turn pos inside
    obtain ⟨fuel, rfl⟩ := Nat.exists_eq_add_one_of_ne_zero (Nat.ne_of_gt enough)
    change findLoop fieldName (fuel + 1) _ _ = _
    rw [none given, findLoop, fread, List.take_zero]
    rfl
  | cons line more later =>
    obtain ⟨-, some⟩ := turn pos inside
    obtain ⟨full, size, back, read, within, others⟩ := some line more given
    obtain ⟨fuel, rfl⟩ := Nat.exists_eq_add_one_of_ne_zero (Nat.ne_of_gt (Nat.zero_lt_of_lt enough))
    change findLoop fieldName (fuel + 1) _ _ = _
    rw [back, findLoop, fread]
    dsimp only
    rw [size, read, if_neg full, search]
    have again := later fuel (pos + line.length) within others (Nat.lt_of_succ_lt_succ enough)
    dsimp only at again
    rw [again]

theorem readsFromLength (line rest : Text) : (readsFrom line rest).length ≤ rest.length := by
  induction rest generalizing line with
  | nil => exact Nat.le_refl _
  | cons c rest later =>
    rw [readsFrom]
    split
    · exact Nat.succ_le_succ (later [])
    · exact (later _).trans (Nat.le_succ _)

theorem findValueSearches {fuel : Nat} (enough : content.length < fuel) :
    findValueFromFile fuel fieldName content = search fieldName (reads content) :=
  searched (reads content) fuel 0 (Nat.zero_le _) rfl ((readsFromLength [] content).trans_lt enough)

end Runs

section Lines

def lines (content : Text) : List Text := content.splitOn '\n'

def ended (content : Text) : List Text := (lines content).dropLast

inductive Grouped : List Text → List Text → Prop
  | none : Grouped [] []
  | blank : Grouped [] [[]]
  | line {line : Text} {records rest : List Text} : line ≠ [] → Grouped records rest →
      Grouped ((line ++ ['\n']) :: records) (line :: rest)
  | merged {line : Text} {records rest : List Text} : Grouped records rest →
      Grouped (('\n' :: (line ++ ['\n'])) :: records) ([] :: line :: rest)

theorem readsLine {line taken : Text} (inside : '\n' ∉ taken) (full : line ++ taken ≠ []) (rest : Text) :
    readsFrom line (taken ++ '\n' :: rest) = (line ++ taken ++ ['\n']) :: reads rest := by
  induction taken generalizing line with
  | nil =>
    rw [List.append_nil] at full ⊢
    rw [List.nil_append, readsFrom, if_pos ⟨rfl, full⟩, reads]
  | cons c taken later =>
    have other : ¬(c = '\n' ∧ line ≠ []) := fun newline => inside (newline.1 ▸ List.mem_cons_self)
    rw [List.cons_append, readsFrom, if_neg other, later (fun among => inside (List.mem_cons_of_mem _ among))]
    · rw [List.append_assoc line]
      rfl
    · simp

theorem readsRest {line taken : Text} (inside : '\n' ∉ taken) : readsFrom line taken = [] := by
  induction taken generalizing line with
  | nil => rfl
  | cons c taken later =>
    have other : ¬(c = '\n' ∧ line ≠ []) := fun newline => inside (newline.1 ▸ List.mem_cons_self)
    rw [readsFrom, if_neg other]
    exact later fun among => inside (List.mem_cons_of_mem _ among)

theorem endedRest {taken : Text} (inside : '\n' ∉ taken) : ended taken = [] := by
  rw [ended, lines, List.splitOn_eq_singleton inside]
  rfl

theorem endedLine {taken : Text} (inside : '\n' ∉ taken) (rest : Text) :
    ended (taken ++ '\n' :: rest) = taken :: ended rest := by
  rw [ended, lines, List.splitOn_append_cons_self_of_not_mem inside]
  exact List.dropLast_cons_of_ne_nil (List.splitOn_ne_nil _ _)

theorem firstLine (content : Text) : '\n' ∉ content ∨
    ∃ line rest, content = line ++ '\n' :: rest ∧ '\n' ∉ line := by
  by_cases among : '\n' ∈ content
  · obtain ⟨line, rest, whole, first⟩ := List.eq_append_cons_of_mem among
    exact Or.inr ⟨line, rest, whole, first⟩
  · exact Or.inl among

theorem grouped (content : Text) : Grouped (reads content) (ended content) := by
  induction long : content.length using Nat.strong_induction_on generalizing content with
  | _ n shorter =>
  rcases firstLine content with unended | ⟨line, rest, rfl, first⟩
  · rw [reads, readsRest unended, endedRest unended]
    exact Grouped.none
  · rw [endedLine first]
    rw [List.length_append, List.length_cons] at long
    by_cases blank : line = []
    · subst blank
      change Grouped (readsFrom ['\n'] rest) _
      rcases firstLine rest with unended | ⟨line, rest, rfl, second⟩
      · rw [readsRest unended, endedRest unended]
        exact Grouped.blank
      · rw [endedLine second, readsLine second (List.cons_ne_nil _ _)]
        rw [List.length_append, List.length_cons] at long
        exact Grouped.merged (shorter _ (by omega) rest rfl)
    · rw [reads, @readsLine [] line first blank]
      exact Grouped.line blank (shorter _ (by omega) rest rfl)

end Lines

section Fields

structure FieldName where
  name : Text
  some : name ≠ []
  word : ∀ c ∈ name, isWord c = true

def parseTable : List String :=
  ["PLATFORM", "ENTRY_POINT", "BOOT_SRC", "BOOT_HO", "SB_EN", "PUB_KEY", "KEY_SELECT", "IMAGE_1", "IMAGE_2",
   "IMAGE_3", "IMAGE_4", "IMAGE_5", "IMAGE_6", "IMAGE_7", "IMAGE_8", "FSL_UID_0", "FSL_UID_1", "OEM_UID_0",
   "OEM_UID_1", "OEM_UID_2", "OEM_UID_3", "OEM_UID_4", "OUTPUT_HDR_FILENAME", "MP_FLAG", "ISS_FLAG", "LW_FLAG",
   "PRI_KEY", "IMAGE_HASH_FILENAME", "RSA_SIGN_FILENAME", "RCW_PBI_FILENAME", "BOOT1_PTR", "VERBOSE",
   "SEC_IMAGE", "WP_FLAG", "HK_AREA_POINTER", "HK_AREA_SIZE", "IMAGE_TARGET", "SG_TABLE_ADDR", "OUTPUT_SG_BIN",
   "ESBC_HDRADDR_SEC_IMAGE", "IE_KEY_SEL", "ESBC_HDRADDR", "IE_KEY", "IE_REVOC", "IE_TABLE_ADDR",
   "OUTPUT_RCW_PBI_FILENAME", "POVDD_GPIO", "OTPMK_FLAGS", "OTPMK_0", "OTPMK_1", "OTPMK_2", "OTPMK_3",
   "OTPMK_4", "OTPMK_5", "OTPMK_6", "OTPMK_7", "SRKH_0", "SRKH_1", "SRKH_2", "SRKH_3", "SRKH_4", "SRKH_5",
   "SRKH_6", "SRKH_7", "DCV_0", "DCV_1", "DRV_0", "DRV_1", "MC_ERA", "DBG_LVL", "WP", "ITS", "NSEC", "ZD",
   "K0", "K1", "K2", "K3", "K4", "K5", "K6", "FR0", "FR1", "OUTPUT_FUSE_FILENAME"]

theorem parseTableWords (name : String) (among : name ∈ parseTable) :
    ∃ field : FieldName, field.name = name.toList := by
  have checked : parseTable.all (fun name => name.toList ≠ [] ∧ name.toList.all isWord) = true := by decide +kernel
  have here := of_decide_eq_true (List.all_eq_true.1 checked name among)
  exact ⟨⟨name.toList, here.1, List.all_eq_true.1 here.2⟩, rfl⟩

variable {field : FieldName} {content line s : Text} {lineData : List Text} {f : InputField}

section Words

theorem strstrFirst {name s : Text} {i : Nat} : strstr name s = Option.some i ↔
    (∃ a b, s = a ++ name ++ b ∧ a.length = i) ∧ ∀ a b, s = a ++ name ++ b → i ≤ a.length := by
  induction s generalizing i with
  | nil =>
    rw [strstr]
    split
    · next none =>
      rw [Option.some.injEq]
      constructor
      · rintro rfl
        exact ⟨⟨[], [], by rw [none]; rfl, rfl⟩, fun _ _ _ => Nat.zero_le _⟩
      · rintro ⟨-, least⟩
        exact (Nat.le_zero.1 (least [] [] (by rw [none]; rfl))).symm
    · next some =>
      refine ⟨nofun, ?_⟩
      rintro ⟨⟨a, b, whole, -⟩, -⟩
      have parts := List.append_eq_nil_iff.1 whole.symm
      exact absurd (List.append_eq_nil_iff.1 parts.1).2 some
  | cons c rest later =>
    rw [strstr]
    split
    · next here =>
      obtain ⟨b, whole⟩ := List.isPrefixOf_iff_prefix.1 here
      rw [Option.some.injEq]
      constructor
      · rintro rfl
        exact ⟨⟨[], b, whole.symm, rfl⟩, fun _ _ _ => Nat.zero_le _⟩
      · rintro ⟨-, least⟩
        exact (Nat.le_zero.1 (least [] b whole.symm)).symm
    · next here =>
      have behind {a b : Text} (whole : c :: rest = a ++ name ++ b) :
          ∃ a', a = c :: a' ∧ rest = a' ++ name ++ b := by
        cases a with
        | nil => exact absurd ( List.isPrefixOf_iff_prefix.2 ⟨b, whole.symm⟩) here
        | cons d a' =>
          obtain ⟨rfl, same⟩ := List.cons.inj whole
          exact ⟨a', rfl, same⟩
      cases i with
      | zero =>
        constructor
        · intro found
          obtain ⟨j, -, wrong⟩ := Option.map_eq_some_iff.1 found
          cases wrong
        · rintro ⟨⟨a, b, whole, none⟩, -⟩
          obtain ⟨a', rfl, -⟩ := behind whole
          cases none
      | succ i =>
        have step : (strstr name rest).map (· + 1) = Option.some (i + 1) ↔ strstr name rest = Option.some i := by
          rw [Option.map_eq_some_iff]
          constructor
          · rintro ⟨j, found, same⟩
            rw [found, Nat.succ.inj same]
          · exact fun found => ⟨i, found, rfl⟩
        rw [step, later]
        constructor
        · rintro ⟨⟨a, b, rfl, rfl⟩, least⟩
          refine ⟨⟨c :: a, b, rfl, rfl⟩, fun a' b' whole => ?_⟩
          obtain ⟨a'', rfl, same⟩ := behind whole
          exact Nat.succ_le_succ (least a'' b' same)
        · rintro ⟨⟨a, b, whole, long⟩, least⟩
          obtain ⟨a', rfl, same⟩ := behind whole
          exact ⟨⟨a', b, same, Nat.succ.inj long⟩, fun a'' b' again =>
            Nat.le_of_succ_le_succ (least (c :: a'') b' (by rw [again]; rfl))⟩

def Alone (name s : Text) : Prop :=
  ∃ a b, s = a ++ name ++ b ∧ (∀ a' b', s = a' ++ name ++ b' → a.length ≤ a'.length) ∧
    (∀ c ∈ a.getLast?, isWord c = false) ∧ ∀ c ∈ b.head?, isWord c = false

theorem lastBefore (a rest : Text) : (∀ c ∈ a.getLast?, isWord c = false) ↔
    ¬(a.length ≠ 0 ∧ isWord ((a ++ rest).getD (a.length - 1) '\x00') = true) := by
  rcases List.eq_nil_or_concat a with rfl | ⟨a, c, rfl⟩
  · simp
  · rw [List.concat_eq_append]
    have place : (a ++ [c] ++ rest).getD ((a ++ [c]).length - 1) '\x00' = c := by
      rw [List.length_append, List.append_assoc, List.getD_append_right _ _ _ _ (by simp)]
      simp
    rw [place]
    simp

theorem firstBehind (a b : Text) : (∀ c ∈ b.head?, isWord c = false) ↔
    isWord ((a ++ b).getD a.length '\x00') = false := by
  rw [List.getD_append_right _ _ _ _ (Nat.le_refl _), Nat.sub_self]
  cases b with
  | nil => exact ⟨fun _ => by decide, fun _ => nofun⟩
  | cons c b => simp

theorem foundAlone {name s : Text} : foundWholeWord s name = true ↔ Alone name s := by
  unfold foundWholeWord
  cases first : strstr name s with
  | none =>
    refine ⟨nofun, ?_⟩
    rintro ⟨a, b, whole, least, -⟩
    have found : strstr name s = Option.some a.length := strstrFirst.2 ⟨⟨a, b, whole, rfl⟩, least⟩
    rw [first] at found
    cases found
  | some i =>
    obtain ⟨⟨a, b, rfl, rfl⟩, least⟩ := strstrFirst.1 first
    have ahead := lastBefore a (name ++ b)
    have behind := firstBehind (a ++ name) b
    rw [← List.append_assoc] at ahead
    rw [List.length_append] at behind
    have split : (if a.length ≠ 0 ∧ isWord ((a ++ name ++ b).getD (a.length - 1) '\x00') = true then false
          else !isWord ((a ++ name ++ b).getD (a.length + name.length) '\x00')) = true ↔
        (∀ c ∈ a.getLast?, isWord c = false) ∧ ∀ c ∈ b.head?, isWord c = false := by
      rw [ahead, behind]
      split
      · next wrong => exact ⟨nofun, fun right => absurd wrong right.1⟩
      · next right => rw [Bool.not_eq_true', and_iff_right right]
    refine split.trans ⟨fun alone => ⟨a, b, rfl, least, alone⟩, ?_⟩
    rintro ⟨a', b', whole, least', alone⟩
    have long : a.length = a'.length := Nat.le_antisymm (least a' b' whole) (least' a b rfl)
    rw [List.append_assoc, List.append_assoc] at whole
    obtain ⟨rfl, same⟩ := List.append_inj whole long
    rw [List.append_cancel_left same]
    exact alone

end Words

section Tokens

def table (values : List Text) : List (Option Text) :=
  values.map Option.some ++ List.replicate (tableSize - values.length) none

theorem tableSet (values : List Text) (room : values.length < tableSize) (value : Option Text) :
    (table values).set values.length value =
      values.map Option.some ++ value :: List.replicate (tableSize - (values.length + 1)) none := by
  have free : tableSize - values.length = tableSize - (values.length + 1) + 1 := by omega
  rw [table, free, List.replicate_succ, List.set_append_right _ _ (by rw [List.length_map]), List.length_map, Nat.sub_self]
  rfl

theorem fieldLoopStores (t : Text) (rest values : List Text) (room : values.length + (rest.length + 1) ≤ tableSize) :
    fieldLoop (t :: rest) values.length (table values) =
      .ok ⟨table (values ++ rest), (values.length + rest.length : Nat)⟩ := by
  induction rest generalizing t values with
  | nil =>
    have here : values.length < tableSize := room
    have free : tableSize - values.length = tableSize - (values.length + 1) + 1 := by omega
    rw [fieldLoop, if_pos here, List.head?_nil, tableSet values here, fieldLoop, List.append_nil, table, free,
      List.replicate_succ, List.length_nil]
    congr 2
    omega
  | cons u rest later =>
    rw [List.length_cons] at room
    have here : values.length < tableSize := by omega
    have stored : (table values).set values.length (Option.some u) = table (values ++ [u]) := by
      rw [tableSet values here, table, List.map_append, List.length_append, List.append_assoc]
      rfl
    have again := later u (values ++ [u]) (by rw [List.length_append, List.length_singleton]; omega)
    rw [List.length_append, List.length_singleton, List.append_assoc] at again
    rw [fieldLoop, if_pos here, List.head?_cons, stored, again, List.length_cons]
    congr 3
    omega

theorem fieldLoopLeaves {rest : List Text} {i : Nat} {value : List (Option Text)} (inside : i ≤ tableSize)
    (long : tableSize < i + rest.length) : fieldLoop rest i value = .error .outOfBounds := by
  induction rest generalizing i value with
  | nil => exact absurd long (Nat.not_lt.2 inside)
  | cons t rest later =>
    rw [fieldLoop]
    split
    · next room =>
      refine later room ?_
      rw [List.length_cons] at long
      omega
    · rfl

def valueText (s : Text) : Text := (s.dropWhile (· ≠ '=')).tail

def values (s : Text) : List Text := (valueText s).splitOn ','

def assigns (field : FieldName) (s : Text) : Bool :=
  s.head? ≠ Option.some '#' ∧ '=' ∈ s ∧ s.takeWhile (· ≠ '=') = field.name

theorem assignsWhole (right : assigns field s = true) : s = field.name ++ '=' :: valueText s := by
  obtain ⟨-, among, key⟩ := of_decide_eq_true right
  obtain ⟨ahead, behind, rfl, first⟩ := List.eq_append_cons_of_mem among
  have free : ∀ c ∈ ahead, decide (c ≠ '=') = true := fun c inside => decide_eq_true fun same => first (same ▸ inside)
  rw [List.takeWhile_append_of_pos free, List.takeWhile_cons_of_neg (by decide), List.append_nil] at key
  rw [valueText, List.dropWhile_append_of_pos free, List.dropWhile_cons_of_neg (by decide), key, List.tail_cons]

theorem wordDelim {c : Char} (word : isWord c = true) : isDelim c = false := by
  rw [isDelim, decide_eq_false_iff_not]
  intro among
  simp only [List.mem_cons, List.not_mem_nil, or_false] at among
  rcases among with rfl | rfl | rfl
  all_goals exact absurd word (by decide)

theorem assignsStands (right : assigns field s = true) : stands field.name s = true := by
  have noted : s.head? ≠ Option.some '#' := (of_decide_eq_true right).1
  have alone : Alone field.name s := by
    refine ⟨[], '=' :: valueText s, assignsWhole right, fun _ _ _ => Nat.zero_le _, nofun, fun c first => ?_⟩
    cases first
    decide
  rw [stands, foundAlone.2 alone, decide_eq_true noted, Bool.and_self]

theorem assignsTokens (right : assigns field s = true) : strtok s = field.name :: strtok (valueText s) := by
  have free : ∀ c ∈ field.name, isDelim c = false := fun c among => wordDelim (field.word c among)
  have pieces := List.splitOnP_append_cons_of_forall_mem free '=' (by decide) (valueText s)
  rw [← assignsWhole right] at pieces
  rw [strtok, pieces]
  exact List.filter_cons_of_pos (decide_eq_true field.some)

theorem pieceFree {p : Char → Bool} {text piece : Text} (among : piece ∈ text.splitOnP p) : ∀ c ∈ piece, p c = false := by
  induction text generalizing piece with
  | nil =>
    rw [List.splitOnP_nil, List.mem_singleton] at among
    rw [among]
    exact nofun
  | cons d rest later =>
    rw [List.splitOnP_cons_eq_if_modifyHead] at among
    split at among
    · rcases List.mem_cons.1 among with rfl | among
      · exact nofun
      · exact later among
    · next other =>
      obtain ⟨first, more, whole⟩ := List.exists_cons_of_ne_nil (List.splitOnP_ne_nil p rest)
      rw [whole] at later
      rw [whole, List.modifyHead_cons] at among
      rcases List.mem_cons.1 among with rfl | among
      · intro c inside
        rcases List.mem_cons.1 inside with rfl | inside
        · exact Bool.eq_false_iff.2 other
        · exact later List.mem_cons_self c inside
      · exact later (List.mem_cons_of_mem _ among)

theorem splitSame {p q : Char → Bool} {text : Text} (same : ∀ piece ∈ text.splitOnP q, ∀ c ∈ piece, p c = false)
    (implies : ∀ c, q c = true → p c = true) : text.splitOnP p = text.splitOnP q := by
  induction text with
  | nil => rw [List.splitOnP_nil, List.splitOnP_nil]
  | cons c rest later =>
    rw [List.splitOnP_cons_eq_if_modifyHead] at same ⊢
    rw [List.splitOnP_cons_eq_if_modifyHead]
    by_cases splits : q c = true
    · rw [if_pos splits] at same
      rw [if_pos splits, if_pos (implies c splits), later fun piece among => same piece (List.mem_cons_of_mem _ among)]
    · rw [if_neg splits] at same
      obtain ⟨first, more, whole⟩ := List.exists_cons_of_ne_nil (List.splitOnP_ne_nil q rest)
      rw [whole, List.modifyHead_cons] at same
      have kept : p c = false := same _ List.mem_cons_self c List.mem_cons_self
      rw [if_neg splits, if_neg (Bool.eq_false_iff.1 kept), later]
      rw [whole]
      intro piece among
      rcases List.mem_cons.1 among with rfl | among
      · exact fun d inside => same _ List.mem_cons_self d (List.mem_cons_of_mem _ inside)
      · exact same piece (List.mem_cons_of_mem _ among)

theorem tokensValues : strtok (valueText s) = values s ↔ ∀ value ∈ values s, value ≠ [] ∧ ';' ∉ value ∧ '=' ∉ value := by
  constructor
  · intro same value among
    rw [← same] at among
    obtain ⟨piece, full⟩ := List.mem_filter.1 among
    have free := pieceFree piece
    exact ⟨of_decide_eq_true full, fun inside => absurd (free _ inside) (by decide),
      fun inside => absurd (free _ inside) (by decide)⟩
  · intro sound
    have same : (valueText s).splitOnP isDelim = values s := by
      refine splitSame (fun piece among c inside => ?_) fun c comma => ?_
      · rw [isDelim, decide_eq_false_iff_not]
        intro delim
        simp only [List.mem_cons, List.not_mem_nil, or_false] at delim
        rcases delim with rfl | rfl | rfl
        · exact absurd (pieceFree among _ inside) (by decide)
        · exact (sound piece among).2.1 inside
        · exact (sound piece among).2.2 inside
      · rw [eq_of_beq comma]
        decide
    rw [strtok, same]
    exact List.filter_eq_self.2 fun value among => decide_eq_true (sound value among).1

end Tokens

section Search

def stripped (content : Text) : List Text := (lines content).map removeWhitespace

def strippedEnded (content : Text) : List Text := (ended content).map removeWhitespace

structure Finds (field : FieldName) (content : Text) (f : InputField) : Prop where
  found : 1 ≤ f.count ↔ ∃ s ∈ stripped content, assigns field s = true
  values : ∀ s, (stripped content).find? (assigns field) = Option.some s →
    f.count = ((values s).take tableSize).length ∧
      f.value.take ((values s).take tableSize).length = ((values s).take tableSize).map Option.some
  taken : ∀ s, (strippedEnded content).find? (stands field.name) = Option.some s → assigns field s = true

structure Clear (field : FieldName) (content : Text) : Prop where
  alone : ∀ before s behind, strippedEnded content = before ++ s :: behind →
    (∀ s' ∈ before, assigns field s' = false) → s.head? ≠ Option.some '#' → Alone field.name s → assigns field s = true
  ends : (∃ s ∈ stripped content, assigns field s = true) → ∃ s ∈ strippedEnded content, assigns field s = true
  plain : ∀ s, (stripped content).find? (assigns field) = Option.some s →
    ∀ value ∈ values s, value ≠ [] ∧ ';' ∉ value ∧ '=' ∉ value
  few : ∀ s, (stripped content).find? (assigns field) = Option.some s → (values s).length < tableSize
  room : ∀ before line behind, reads content = before ++ line :: behind →
    (∀ line' ∈ before, stands field.name (removeWhitespace line') = false) → line.length < maxLineSize

theorem stripNewline (line : Text) : removeWhitespace (line ++ ['\n']) = removeWhitespace line := by
  induction line with
  | nil => rfl
  | cons c rest later => rw [List.cons_append, removeWhitespace, removeWhitespace, later]

theorem groupedFirst {records rest : List Text} (grouped : Grouped records rest) (test : Text → Bool)
    (blank : test [] = false) :
    (records.map removeWhitespace).find? test = (rest.map removeWhitespace).find? test := by
  induction grouped with
  | none => rfl
  | blank =>
    change _ = List.find? test [[]]
    rw [List.find?_cons_of_neg (by simp [blank])]
    rfl
  | line full _ later =>
    rw [List.map_cons, List.map_cons, stripNewline, List.find?_cons, List.find?_cons, later]
  | @merged line records rest _ later =>
    have first : removeWhitespace ('\n' :: (line ++ ['\n'])) = removeWhitespace line := stripNewline line
    have skipped : List.find? test ([] :: removeWhitespace line :: rest.map removeWhitespace) =
        List.find? test (removeWhitespace line :: rest.map removeWhitespace) :=
      List.find?_cons_of_neg (by simp [blank])
    change List.find? test (removeWhitespace ('\n' :: (line ++ ['\n'])) :: records.map removeWhitespace) = _
    rw [first, List.find?_cons, later, ← List.find?_cons]
    exact skipped.symm

theorem standsBlank (field : FieldName) : stands field.name [] = false := by
  have absent : foundWholeWord [] field.name = false := by
    rw [foundWholeWord, strstr, if_neg field.some]
  rw [stands, absent, Bool.false_and]

theorem lineTaken (field : FieldName) (content : Text) :
    ((reads content).map removeWhitespace).find? (stands field.name) =
      (strippedEnded content).find? (stands field.name) :=
  groupedFirst (grouped content) _ (standsBlank field)

theorem searchDone {records : List Text} : search field.name records = .ok f ↔
    (∀ before line behind, records = before ++ line :: behind →
      (∀ line' ∈ before, stands field.name (removeWhitespace line') = false) → line.length < maxLineSize) ∧
    match (records.map removeWhitespace).find? (stands field.name) with
    | none => f = ⟨List.replicate tableSize none, 0⟩
    | some s => getFieldFromFile s = .ok f := by
  induction records with
  | nil =>
    rw [search, Except.ok.injEq]
    exact ⟨fun same => ⟨fun before line behind whole => by simp at whole, same.symm⟩, fun done => done.2.symm⟩
  | cons line more later =>
    rw [search, List.map_cons, List.find?_cons]
    split
    · next long =>
      refine ⟨nofun, fun done => ?_⟩
      exact absurd (done.1 [] line more rfl nofun) (Nat.not_lt.2 long)
    · next short =>
      cases here : stands field.name (removeWhitespace line) with
      | true =>
        rw [if_pos rfl]
        refine ⟨fun done => ⟨fun before line' behind whole free => ?_, done⟩, fun done => done.2⟩
        cases before with
        | nil =>
          obtain ⟨rfl, -⟩ := List.cons.inj whole
          exact Nat.not_le.1 short
        | cons first before =>
          obtain ⟨rfl, -⟩ := List.cons.inj whole
          have other := free line List.mem_cons_self
          rw [here] at other
          cases other
      | false =>
        rw [if_neg (by decide), later]
        refine and_congr_left fun _ => ⟨fun room before line' behind whole free => ?_,
          fun room before line' behind whole free => ?_⟩
        · cases before with
          | nil =>
            obtain ⟨rfl, -⟩ := List.cons.inj whole
            exact Nat.not_le.1 short
          | cons first before =>
            obtain ⟨rfl, rest⟩ := List.cons.inj whole
            exact room before line' behind rest fun line'' among => free line'' (List.mem_cons_of_mem _ among)
        · refine room (line :: before) line' behind (by rw [whole]; rfl) fun line'' among => ?_
          rcases List.mem_cons.1 among with rfl | among
          · exact here
          · exact free line'' among

theorem strippedLast (content : Text) : ∃ last, stripped content = strippedEnded content ++ [last] := by
  have some : lines content ≠ [] := List.splitOn_ne_nil _ _
  refine ⟨removeWhitespace ((lines content).getLast some), ?_⟩
  rw [stripped, strippedEnded, ended, ← List.map_singleton, ← List.map_append, List.dropLast_append_getLast]

theorem assignsNone (free : stands field.name s = false) : assigns field s = false :=
  Bool.eq_false_iff.2 fun right => absurd (assignsStands right) (Bool.eq_false_iff.1 free)

theorem takenFirst (taken : (strippedEnded content).find? (stands field.name) = Option.some s)
    (right : assigns field s = true) : (stripped content).find? (assigns field) = Option.some s := by
  obtain ⟨last, whole⟩ := strippedLast content
  obtain ⟨-, before, behind, split, free⟩ := List.find?_eq_some_iff_append.1 taken
  rw [whole, split, List.append_assoc]
  refine List.find?_eq_some_iff_append.2 ⟨right, before, behind ++ [last], rfl, fun s' among => ?_⟩
  rw [assignsNone ((Bool.not_eq_true' _).mp (free s' among))]
  rfl

theorem takenAlone : (∀ s, (strippedEnded content).find? (stands field.name) = Option.some s → assigns field s = true) ↔
    ∀ before s behind, strippedEnded content = before ++ s :: behind → (∀ s' ∈ before, assigns field s' = false) →
      s.head? ≠ Option.some '#' → Alone field.name s → assigns field s = true := by
  constructor
  · intro taken before s behind whole free noted alone
    have here : stands field.name s = true := by rw [stands, foundAlone.2 alone, decide_eq_true noted, Bool.and_self]
    cases ahead : before.find? (stands field.name) with
    | some c =>
      have first : (strippedEnded content).find? (stands field.name) = Option.some c := by
        rw [whole, List.find?_append, ahead, Option.some_or]
      have wrong := free c (List.mem_of_find?_eq_some ahead)
      rw [taken c first] at wrong
      cases wrong
    | none =>
      refine taken s ?_
      rw [whole, List.find?_append, ahead, Option.none_or, List.find?_cons_of_pos here]
  · intro alone s taken
    obtain ⟨here, before, behind, split, free⟩ := List.find?_eq_some_iff_append.1 taken
    rw [stands, Bool.and_eq_true] at here
    exact alone before s behind split (fun s' among => assignsNone ((Bool.not_eq_true' _).mp (free s' among)))
      (of_decide_eq_true here.2) (foundAlone.1 here.1)

theorem getFieldRight (right : assigns field s = true) : getFieldFromFile s =
    if (strtok (valueText s)).length < tableSize then
      .ok ⟨table (strtok (valueText s)), (strtok (valueText s)).length⟩
    else .error .outOfBounds := by
  rw [getFieldFromFile, assignsTokens right]
  split
  · next room =>
    have stores := fieldLoopStores field.name (strtok (valueText s)) [] (by rw [List.length_nil]; omega)
    rw [List.length_nil, List.nil_append, Nat.zero_add] at stores
    exact stores
  · next full => exact fieldLoopLeaves (Nat.zero_le _) (by rw [List.length_cons]; omega)

theorem tableTake (values : List Text) : (table values).take values.length = values.map Option.some := by
  rw [table, List.take_append_of_le_length (by rw [List.length_map]), List.take_of_length_le (by rw [List.length_map])]

theorem storedValues (right : assigns field s = true) :
    (∃ f, getFieldFromFile s = .ok f ∧ f.count = ((values s).take tableSize).length ∧
      f.value.take ((values s).take tableSize).length = ((values s).take tableSize).map Option.some) ↔
    (∀ value ∈ values s, value ≠ [] ∧ ';' ∉ value ∧ '=' ∉ value) ∧ (values s).length < tableSize := by
  rw [getFieldRight right, ← tokensValues]
  constructor
  · rintro ⟨f, stored, count, places⟩
    split at stored
    · next room =>
      cases stored
      have long : (strtok (valueText s)).length = ((values s).take tableSize).length := Int.ofNat.inj count
      rw [← long, tableTake] at places
      have same := List.map_injective_iff.2 (Option.some_injective Text) places
      have short : (values s).length < tableSize := by
        rw [List.length_take] at long
        omega
      rw [List.take_of_length_le (Nat.le_of_lt short)] at same
      exact ⟨same, short⟩
    · cases stored
  · rintro ⟨same, short⟩
    rw [same, if_pos short, List.take_of_length_le (Nat.le_of_lt short)]
    exact ⟨_, rfl, rfl, tableTake _⟩

theorem valuesFull (s : Text) : 0 < ((values s).take tableSize).length := by
  have some : 0 < (values s).length := List.length_pos_iff.2 (List.splitOn_ne_nil _ _)
  rw [List.length_take]
  exact Nat.lt_min.2 ⟨by decide, some⟩

theorem untaken (none : (strippedEnded content).find? (stands field.name) = Option.none)
    (among : s ∈ strippedEnded content) : assigns field s = false :=
  assignsNone (Bool.eq_false_iff.2 (List.find?_eq_none.1 none s among))

theorem findsClear (done : search field.name (reads content) = .ok f) (finds : Finds field content f) :
    Clear field content := by
  obtain ⟨room, result⟩ := searchDone.1 done
  rw [lineTaken] at result
  have alone := takenAlone.1 finds.taken
  cases chosen : (strippedEnded content).find? (stands field.name) with
  | none =>
    rw [chosen] at result
    subst result
    have absent : ¬∃ s ∈ stripped content, assigns field s = true := fun right =>
      absurd (finds.found.2 right) (by decide)
    have first {s : Text} (right : (stripped content).find? (assigns field) = Option.some s) : False :=
      absent ⟨s, List.mem_of_find?_eq_some right, List.find?_some right⟩
    exact ⟨alone, fun right => absurd right absent, fun s right => (first right).elim, fun s right => (first right).elim,
      room⟩
  | some c =>
    rw [chosen] at result
    have right := finds.taken c chosen
    have first := takenFirst chosen right
    obtain ⟨plain, few⟩ := (storedValues right).1 ⟨f, result, finds.values c first⟩
    refine ⟨alone, fun _ => ⟨c, List.mem_of_find?_eq_some chosen, right⟩, fun s same => ?_, fun s same => ?_, room⟩
    · rw [first] at same
      cases same
      exact plain
    · rw [first] at same
      cases same
      exact few

theorem clearFinds (clear : Clear field content) :
    ∃ f, search field.name (reads content) = .ok f ∧ Finds field content f := by
  have taken := takenAlone.2 clear.alone
  cases chosen : (strippedEnded content).find? (stands field.name) with
  | none =>
    have absent : ¬∃ s ∈ stripped content, assigns field s = true := by
      intro right
      obtain ⟨s, among, right⟩ := clear.ends right
      rw [untaken chosen among] at right
      cases right
    have done : search field.name (reads content) = .ok ⟨List.replicate tableSize none, 0⟩ := by
      rw [searchDone, lineTaken, chosen]
      exact ⟨clear.room, rfl⟩
    exact ⟨_, done, ⟨fun wrong => absurd wrong (by decide), fun right => absurd right absent⟩,
      fun s right => absurd ⟨s, List.mem_of_find?_eq_some right, List.find?_some right⟩ absent, taken⟩
  | some c =>
    have right := taken c chosen
    have first := takenFirst chosen right
    obtain ⟨f, stored, count, places⟩ := (storedValues right).2 ⟨clear.plain c first, clear.few c first⟩
    have done : search field.name (reads content) = .ok f := by
      rw [searchDone, lineTaken, chosen]
      exact ⟨clear.room, stored⟩
    have full := valuesFull c
    refine ⟨f, done, ⟨fun _ => ⟨c, List.mem_of_find?_eq_some first, right⟩, fun _ => by omega⟩, fun s same => ?_, taken⟩
    rw [first] at same
    cases same
    exact ⟨count, places⟩

theorem searchEnds (records : List Text) : search field.name records ≠ .error .unfinished := by
  have stored (rest : List Text) (i : Nat) (value : List (Option Text)) :
      fieldLoop rest i value ≠ .error .unfinished := by
    induction rest generalizing i value with
    | nil => exact nofun
    | cons t rest later =>
      rw [fieldLoop]
      split
      · exact later _ _
      · exact nofun
  induction records with
  | nil => exact nofun
  | cons line more later =>
    rw [search]
    split
    · exact nofun
    · split
      · exact stored _ _ _
      · exact later

end Search

structure Parsed (field : FieldName) (content : Text) : Prop where
  ends : ∀ fuel, content.length < fuel → findValueFromFile fuel field.name content ≠ .error .unfinished
  finds : ∀ fuel, content.length < fuel →
    ((∃ f, findValueFromFile fuel field.name content = .ok f ∧ Finds field content f) ↔ Clear field content)

theorem fieldParsed (field : FieldName) (content : Text) : Parsed field content := by
  constructor
  · intro fuel enough
    rw [findValueSearches enough]
    exact searchEnds _
  · intro fuel enough
    rw [findValueSearches enough]
    exact ⟨fun ⟨_, done, finds⟩ => findsClear done finds, clearFinds⟩

def pubKey : FieldName :=
  ⟨"PUB_KEY".toList, by decide, List.all_eq_true.mp (show "PUB_KEY".toList.all isWord = true by decide)⟩

def keyFiles : Text := "PRI_KEY = PUB_KEY.pri\nPUB_KEY = srk.pub\n".toList

def lastKey : Text := "PLATFORM = LS1043\nPUB_KEY = srk.pub".toList

theorem wrongKeyFile :
    (findValueFromFile 64 pubKey.name keyFiles = .ok ⟨table ["PUB_KEY.pri".toList], 1⟩ ∧
      ¬Finds pubKey keyFiles ⟨table ["PUB_KEY.pri".toList], 1⟩) ∧
    findValueFromFile 64 pubKey.name lastKey = .ok ⟨table [], 0⟩ ∧ ¬Finds pubKey lastKey ⟨table [], 0⟩ := by
  refine ⟨⟨by decide, fun finds => ?_⟩, by decide, fun finds => ?_⟩
  · have first : (stripped keyFiles).find? (assigns pubKey) = some "PUB_KEY=srk.pub".toList := by decide
    have value := (finds.values _ first).2
    revert value
    decide
  · have right : ∃ s ∈ stripped lastKey, assigns pubKey s = true := by decide
    exact absurd (finds.found.2 right) (by decide)

end Fields

end Flexbuild.Cst
