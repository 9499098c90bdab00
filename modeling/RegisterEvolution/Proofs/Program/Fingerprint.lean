import RegisterEvolution.Program.Fingerprint
import RegisterEvolution.Proofs.Decimal.Layout
import RegisterEvolution.Proofs.Outcome
import RegisterEvolution.Proofs.Program.Validity

/-!
# `Proofs.Program.Fingerprint` — the text that is hashed determines the program

There is a text to be hashed unless an index is too long to be written out. The text of an instruction sequence is read
back: cut at the commas, it falls into five fields for each instruction, because none of the fields has a comma of its
own.

* `Instruction.Spellable`, `Spelling` — instructions that have a text, and what it spells;
* `readCode?` — the spellings in the text of a sequence;
* `codeText`, `serialize_eq_ok_iff` — the text as fields between commas, and when there is one;
* `readInteger_toString`, `readConstant_jsonConstant` — integers and constants are read as they are written;
* `readFields?_fields`, `readCode?_codeText` — so are the fields of instructions, and the text of a sequence;
* `Instruction.spelled_inj` — instructions with the same spelling are the same;
* `serialize_determines` — sequences with the same text are the same.
-/

namespace RegisterEvolution

open Decimal Text

variable {i j : Instruction} {code code' : List Instruction} {x : Float}

/-! ## Spellings -/

/-- An instruction of a known operation and a known mode, whose constant is a number if there is one. -/
structure Instruction.Spellable (i : Instruction) : Prop where
  opcode : i.operation?.isSome = true
  mode : i.mode ∈ OperandMode.all
  constant : ∀ c ∈ i.constant, c.isNaN = false

/-- What the text of an instruction spells: its fields, with the constant in the words of reports. -/
structure Spelling where
  opcode : String
  destination : Int
  source : Int
  mode : OperandMode
  constant : Option String
  deriving Repr, DecidableEq

/-- The spelling of an instruction. -/
def Instruction.spelled (i : Instruction) : Spelling :=
  ⟨i.opcode, i.destination, i.source, i.mode, i.constant.map floatText⟩

/-! ## Reading -/

/-- What is left of a text without a given front and a given back. -/
def between? (front back : String) (cs : List Char) : Option (List Char) :=
  let inner := (cs.drop front.toList.length).take (cs.length - front.toList.length - back.toList.length)
  if cs = front.toList ++ inner ++ back.toList then some inner else none

/-- The integer of a field. -/
def readInteger (cs : List Char) : Int :=
  let (negative, digits) := takeSign cs
  let n := ofDigits (takeDigits digits).1
  if negative then -(n : Int) else n

/-- The constant of a field, in the words of reports. -/
def readConstant (cs : List Char) : Option String :=
  if cs = "null".toList then none
  else if cs = "Infinity".toList then some "inf"
  else if cs = "-Infinity".toList then some "-inf"
  else some (String.ofList cs)

/-- The instruction of five fields. -/
def readInstruction? (opcode destination source mode constant : List Char) : Option Spelling := do
  let opcode ← between? "[\"" "\"" opcode
  let mode ← between? "\"" "\"" mode
  let constant ← between? "" "]" constant
  return ⟨String.ofList opcode, readInteger destination, readInteger source, .ofName (String.ofList mode),
    readConstant constant⟩

/-- The instructions of fields, five for each. -/
def readFields? : List (List Char) → Option (List Spelling)
  | [] => some []
  | opcode :: destination :: source :: mode :: constant :: rest => do
    let instruction ← readInstruction? opcode destination source mode constant
    return instruction :: (← readFields? rest)
  | _ => none

/-- The instructions in the text of a sequence. -/
def readCode? (text : String) : Option (List Spelling) := do
  let body ← between? "[" "]" text.toList
  if body.isEmpty then return [] else readFields? (body.splitOn ',')

theorem between?_append (front back : String) (cs : List Char) :
    between? front back (front.toList ++ cs ++ back.toList) = some cs := by
  have hinner : ((front.toList ++ cs ++ back.toList).drop front.toList.length).take
      ((front.toList ++ cs ++ back.toList).length - front.toList.length - back.toList.length) = cs := by
    have hlength :
        (front.toList ++ cs ++ back.toList).length - front.toList.length - back.toList.length = cs.length := by
      rw [List.length_append, List.length_append]
      omega
    rw [hlength, List.append_assoc, List.drop_left, List.take_left]
  unfold between?
  simp only [hinner, if_true]

/-! ## Fields -/

/-- The fields of an instruction, with the brackets of the instruction on the first and the last one. -/
def Instruction.fields (i : Instruction) : List String :=
  ["[" ++ jsonName i.opcode, toString i.destination, toString i.source, jsonName i.mode.name,
    jsonConstant i.constant ++ "]"]

/-- The text of a sequence, made of the fields of all of its instructions. -/
def codeText (code : List Instruction) : String := "[" ++ ",".intercalate (code.flatMap Instruction.fields) ++ "]"

theorem Instruction.indexText_eq_ok_iff {n : Int} {text : String} :
    indexText n = .ok text ↔ (Value.int n).isWritable = true ∧ toString n = text := by
  unfold indexText
  split <;> simp [*]

/-- An instruction is written as its fields, if its indices can be written out. -/
theorem Instruction.serialize_eq_ok_iff {text : String} :
    i.serialize = .ok text ↔ i.Writable ∧ text = ",".intercalate i.fields := by
  have hfields : jsonList [jsonName i.opcode, toString i.destination, toString i.source, jsonName i.mode.name,
      jsonConstant i.constant] = ",".intercalate i.fields := by
    simp [jsonList, Instruction.fields, String.append_assoc]
  unfold Instruction.serialize
  simp only [except_bind_eq_ok, indexText_eq_ok_iff, pure, Except.pure, Except.ok.injEq]
  constructor
  · rintro ⟨_, ⟨hdestination, rfl⟩, _, ⟨hsource, rfl⟩, rfl⟩
    exact ⟨⟨hdestination, hsource⟩, hfields⟩
  · rintro ⟨⟨hdestination, hsource⟩, rfl⟩
    exact ⟨_, ⟨hdestination, rfl⟩, _, ⟨hsource, rfl⟩, hfields⟩

/-- The texts of the instructions between commas are their fields between commas. -/
theorem intercalate_fields (code : List Instruction) :
    ",".intercalate (code.map fun i => ",".intercalate i.fields) =
      ",".intercalate (code.flatMap Instruction.fields) := by
  induction code with
  | nil => rfl
  | cons i code ih =>
      -- Between two instructions there is a comma, behind the last one there is none.
      cases code with
      | nil => rw [List.map_singleton, List.flatMap_singleton, String.intercalate_singleton]
      | cons j code =>
          have hfields : i.fields ≠ [] := List.cons_ne_nil _ _
          have hrest : (j :: code).flatMap Instruction.fields ≠ [] := List.cons_ne_nil _ _
          rw [List.flatMap_cons, String.intercalate_append_of_ne_nil hfields hrest, ← ih]
          exact String.intercalate_cons_cons

/-- **There is a text exactly if all indices can be written out.** -/
theorem serialize_eq_ok_iff {text : String} :
    serialize code = .ok text ↔ (∀ i ∈ code, i.Writable) ∧ text = codeText code := by
  have hrows : ∀ rows, List.Forall₂ (fun i row => Instruction.serialize i = .ok row) code rows ↔
      (∀ i ∈ code, i.Writable) ∧ rows = code.map fun i => ",".intercalate i.fields := by
    induction code with
    | nil => simp
    | cons i code ih =>
        intro rows
        simp only [List.forall₂_cons_left_iff, ih, List.forall_mem_cons, List.map_cons]
        constructor
        · rintro ⟨row, _, hrow, ⟨hcode, rfl⟩, rfl⟩
          obtain ⟨hi, rfl⟩ := Instruction.serialize_eq_ok_iff.mp hrow
          exact ⟨⟨hi, hcode⟩, rfl⟩
        · rintro ⟨⟨hi, hcode⟩, rfl⟩
          exact ⟨_, _, Instruction.serialize_eq_ok_iff.mpr ⟨hi, rfl⟩, ⟨hcode, rfl⟩, rfl⟩
  unfold serialize
  simp only [except_bind_eq_ok, mapM_eq_ok_iff, hrows, pure, Except.pure, Except.ok.injEq]
  constructor
  · rintro ⟨_, ⟨hcode, rfl⟩, rfl⟩
    exact ⟨hcode, by rw [jsonList, intercalate_fields, codeText]⟩
  · rintro ⟨hcode, rfl⟩
    exact ⟨_, ⟨hcode, rfl⟩, by rw [jsonList, intercalate_fields, codeText]⟩

/-- The name of a known operation is that of an operation. -/
theorem Instruction.Spellable.exists_opcode (h : i.Spellable) : ∃ op : Opcode, i.opcode = op.name := by
  obtain ⟨op, hop⟩ := Option.isSome_iff_exists.mp h.opcode
  exact ⟨op, (Opcode.name_of_ofName? hop).symm⟩

theorem Opcode.comma_not_mem_name (op : Opcode) : ',' ∉ op.name.toList := by cases op <;> decide

/-- A known mode is read by its name, which has no comma. -/
theorem OperandMode.ofName_name {mode : OperandMode} (h : mode ∈ all) :
    ofName mode.name = mode ∧ ',' ∉ mode.name.toList := by
  cases mode with
  | internal => exact ⟨rfl, by decide⟩
  | external => exact ⟨rfl, by decide⟩
  | constant => exact ⟨rfl, by decide⟩
  | other s => simp [all] at h

/-- An integer is read as it is written. -/
theorem readInteger_toString (n : Int) : readInteger (toString n).toList = n := by
  simp only [readInteger, takeSign_toString, takeDigits_repr, ofDigits_repr, decide_eq_true_eq]
  split <;> omega

theorem comma_not_mem_toString (n : Int) : ',' ∉ (toString n).toList := by
  have hdigits : ',' ∉ n.natAbs.repr.toList := fun h => nomatch (isDigit_of_mem_repr h : ','.isDigit = true)
  rw [toList_toString]
  split
  · exact hdigits
  · intro h
    cases List.mem_cons.mp h with
    | inl h => exact absurd h (by decide)
    | inr h => exact hdigits h

/-- The text of a constant: a word or a number, in which no comma occurs, and which is read as it is reported. -/
theorem readConstant_jsonConstant {constant : Option Float} (h : ∀ c ∈ constant, c.isNaN = false) :
    readConstant (jsonConstant constant).toList = constant.map floatText ∧ ',' ∉ (jsonConstant constant).toList := by
  cases constant with
  | none => exact ⟨rfl, by decide⟩
  | some x =>
      have hnumber := shape_ne_notANumber (h x rfl)
      show readConstant (Layout.json.write x).toList = some (floatText x) ∧ ',' ∉ (Layout.json.write x).toList
      cases hshape : Shape.ofFloat x with
      | notANumber => exact absurd hshape hnumber
      | infinite negative =>
          rw [floatText, Layout.write, Layout.write, hshape]
          cases negative with
          | true => exact ⟨rfl, by decide⟩
          | false => exact ⟨rfl, by decide⟩
      | finite d =>
          have hsame : Layout.json.write x = floatText x := by
            rw [floatText, write_finite _ hshape, write_finite _ hshape]
            rfl
          -- None of the words is written with the characters of numbers only.
          have hnumeral := isNumeral_of_mem_write .json hshape
          have hword {word : List Char} (hc : ∃ c ∈ word, isNumeral c = false) :
              (Layout.json.write x).toList ≠ word := by
            rintro rfl
            obtain ⟨c, hc, hfalse⟩ := hc
            exact absurd (hfalse.symm.trans (hnumeral c hc)) Bool.false_ne_true
          refine ⟨?_, fun hc => absurd (hnumeral ',' hc) (by decide)⟩
          unfold readConstant
          rw [if_neg (hword ⟨'n', by decide, rfl⟩), if_neg (hword ⟨'I', by decide, rfl⟩),
            if_neg (hword ⟨'I', by decide, rfl⟩), String.ofList_toList, hsame]

/-- No field has a comma. -/
theorem Instruction.Spellable.comma_not_mem (h : i.Spellable) : ∀ field ∈ i.fields, ',' ∉ field.toList := by
  obtain ⟨op, hop⟩ := h.exists_opcode
  have hmode := (OperandMode.ofName_name h.mode).2
  have hconstant := (readConstant_jsonConstant h.constant).2
  have hopcode := op.comma_not_mem_name
  intro field hfield
  simp only [Instruction.fields, List.mem_cons, List.not_mem_nil, or_false] at hfield
  obtain rfl | rfl | rfl | rfl | rfl := hfield
  · rw [hop]
    simp [jsonName, hopcode]
  · exact comma_not_mem_toString i.destination
  · exact comma_not_mem_toString i.source
  · simp [jsonName, hmode]
  · simp [hconstant]

/-- The fields of an instruction are read as they are written. -/
theorem Instruction.Spellable.readInstruction?_fields (h : i.Spellable) :
    readInstruction? ("[" ++ jsonName i.opcode).toList (toString i.destination).toList (toString i.source).toList
      (jsonName i.mode.name).toList (jsonConstant i.constant ++ "]").toList = some i.spelled := by
  have hopcode : between? "[\"" "\"" ("[" ++ jsonName i.opcode).toList = some i.opcode.toList := by
    have hchars : ("[" ++ jsonName i.opcode).toList = "[\"".toList ++ i.opcode.toList ++ "\"".toList := by
      simp [jsonName]
    rw [hchars, between?_append]
  have hmode : between? "\"" "\"" (jsonName i.mode.name).toList = some i.mode.name.toList := by
    rw [jsonName, String.toList_append, String.toList_append, between?_append]
  have hconstant : between? "" "]" (jsonConstant i.constant ++ "]").toList = some (jsonConstant i.constant).toList := by
    rw [String.toList_append]
    exact between?_append "" "]" _
  rw [readInstruction?, hopcode, hmode, hconstant]
  simp only [Option.bind_eq_bind, Option.bind_some, readInteger_toString, (readConstant_jsonConstant h.constant).1,
    String.ofList_toList, (OperandMode.ofName_name h.mode).1]
  rfl

/-- The fields of a sequence are read as they are written. -/
theorem readFields?_fields (h : ∀ i ∈ code, i.Spellable) :
    readFields? ((code.flatMap Instruction.fields).map String.toList) = some (code.map Instruction.spelled) := by
  induction code with
  | nil => rfl
  | cons i code ih =>
      have hfields : ((i :: code).flatMap Instruction.fields).map String.toList =
          ("[" ++ jsonName i.opcode).toList :: (toString i.destination).toList :: (toString i.source).toList ::
            (jsonName i.mode.name).toList :: (jsonConstant i.constant ++ "]").toList ::
              (code.flatMap Instruction.fields).map String.toList := rfl
      rw [hfields, readFields?, (h i List.mem_cons_self).readInstruction?_fields,
        ih fun j hj => h j (List.mem_cons_of_mem i hj)]
      rfl

/-- **The text of a sequence is read back.** -/
theorem readCode?_codeText (h : ∀ i ∈ code, i.Spellable) :
    readCode? (codeText code) = some (code.map Instruction.spelled) := by
  have hbody : between? "[" "]" (codeText code).toList =
      some (",".intercalate (code.flatMap Instruction.fields)).toList := by
    rw [codeText, String.toList_append, String.toList_append, between?_append]
  unfold readCode?
  rw [hbody]
  show (if (",".intercalate (code.flatMap Instruction.fields)).toList.isEmpty then some []
    else readFields? ((",".intercalate (code.flatMap Instruction.fields)).toList.splitOn ',')) = _
  cases code with
  | nil => rfl
  | cons i code =>
      have hnonempty : ¬(",".intercalate ((i :: code).flatMap Instruction.fields)).toList.isEmpty = true := by
        simp [Instruction.fields]
      have hcommas : ∀ field ∈ ((i :: code).flatMap Instruction.fields).map String.toList, ',' ∉ field := by
        intro field hfield
        obtain ⟨s, hs, rfl⟩ := List.mem_map.mp hfield
        obtain ⟨j, hj, hs⟩ := List.mem_flatMap.mp hs
        exact (h j hj).comma_not_mem s hs
      have hfields : ((i :: code).flatMap Instruction.fields).map String.toList ≠ [] := List.cons_ne_nil _ _
      have hcomma : ",".toList = [','] := rfl
      rw [if_neg hnonempty, String.toList_intercalate, hcomma, List.splitOn_intercalate ',' hcommas hfields,
        readFields?_fields h]

/-! ## Equal texts -/

/-- Constants with the same text are the same. -/
theorem map_floatText_inj {c d : Option Float} (hc : ∀ x ∈ c, x.isNaN = false) (hd : ∀ x ∈ d, x.isNaN = false)
    (h : c.map floatText = d.map floatText) : c = d := by
  cases c with
  | none =>
      cases d with
      | none => rfl
      | some y => exact nomatch h
  | some x =>
      cases d with
      | none => exact nomatch h
      | some y => exact congrArg some ((floatText_inj (hc x rfl) (hd y rfl)).mp (Option.some.inj h))

/-- Instructions with the same spelling are the same. -/
theorem Instruction.spelled_inj (hi : i.Spellable) (hj : j.Spellable) (h : i.spelled = j.spelled) : i = j := by
  obtain ⟨hopcode, hdestination, hsource, hmode, htext⟩ := Spelling.mk.inj h
  have hconstant := map_floatText_inj hi.constant hj.constant htext
  cases i
  cases j
  simp only at hopcode hdestination hsource hmode hconstant
  rw [hopcode, hdestination, hsource, hmode, hconstant]

theorem map_spelled_inj (h : ∀ i ∈ code, i.Spellable) (h' : ∀ i ∈ code', i.Spellable)
    (heq : code.map Instruction.spelled = code'.map Instruction.spelled) : code = code' := by
  induction code generalizing code' with
  | nil => exact (List.map_eq_nil_iff.mp heq.symm).symm
  | cons i code ih =>
      cases code' with
      | nil => exact nomatch heq
      | cons j code' =>
          obtain ⟨hhead, htail⟩ := List.cons.inj heq
          rw [Instruction.spelled_inj (h i List.mem_cons_self) (h' j List.mem_cons_self) hhead,
            ih (fun k hk => h k (List.mem_cons_of_mem i hk)) (fun k hk => h' k (List.mem_cons_of_mem j hk)) htail]

/--
Two sequences of instructions with known names, numbers for constants and indices that can be written out both have a
text, whose digest is the fingerprint. The text is read back as the spelling of the instructions. The texts are the same
exactly if the sequences spell the same instructions, and then they are the same sequence.
-/
theorem serialize_determines (code code' : List Instruction) (h : ∀ i ∈ code, i.Spellable)
    (h' : ∀ i ∈ code', i.Spellable) (hwritable : ∀ i ∈ code, i.Writable) (hwritable' : ∀ i ∈ code', i.Writable) :
    ∃ text text', serialize code = .ok text ∧ serialize code' = .ok text' ∧
      fingerprint code = .ok (Digest.hex text.toUTF8.toList) ∧ readCode? text = some (code.map Instruction.spelled) ∧
      (text = text' ↔ code.map Instruction.spelled = code'.map Instruction.spelled) ∧
      (text = text' ↔ code = code') := by
  have htext := serialize_eq_ok_iff.mpr ⟨hwritable, rfl⟩
  have htext' := serialize_eq_ok_iff.mpr ⟨hwritable', rfl⟩
  have hfingerprint : fingerprint code = .ok (Digest.hex (codeText code).toUTF8.toList) := by
    unfold fingerprint
    rw [htext]
    rfl
  have hspelled : codeText code = codeText code' → code.map Instruction.spelled = code'.map Instruction.spelled := by
    intro heq
    have hread := readCode?_codeText h
    rw [heq, readCode?_codeText h'] at hread
    exact (Option.some.inj hread).symm
  refine ⟨_, _, htext, htext', hfingerprint, readCode?_codeText h, ⟨hspelled, fun heq => ?_⟩, fun heq => ?_, ?_⟩
  · rw [map_spelled_inj h h' heq]
  · exact map_spelled_inj h h' (hspelled heq)
  · rintro rfl
    rfl

/-- A branch with a constant, and an addition with the given indices. -/
def indices (destination source : Int) : List Instruction :=
  [⟨"if_lt", 0, -3, .constant, some 0.5⟩, ⟨"add", destination, source, .internal, none⟩]

theorem indices_spellable (destination source : Int) : ∀ i ∈ indices destination source, i.Spellable := by
  intro i hi
  simp only [indices, List.mem_cons, List.not_mem_nil, or_false] at hi
  obtain rfl | rfl := hi
  · exact ⟨by decide, by decide, fun c hc => by
      obtain rfl : 0.5 = c := Option.some.inj hc
      decide⟩
  · exact ⟨rfl, List.mem_cons_self, nofun⟩

theorem serialize_determines_indices :
    ∃ text text', serialize (indices 1 12) = .ok text ∧ serialize (indices 11 2) = .ok text' ∧
      readCode? text = some [⟨"if_lt", 0, -3, .constant, some "0.5"⟩, ⟨"add", 1, 12, .internal, none⟩] ∧
      text ≠ text' := by
  have hwritable : ∀ i ∈ indices 1 12 ++ indices 11 2, i.Writable := by
    intro i hi
    simp only [indices, List.cons_append, List.nil_append, List.mem_cons, List.not_mem_nil, or_false] at hi
    obtain rfl | rfl | rfl | rfl := hi <;> exact .of_small (by decide) (by decide)
  obtain ⟨text, text', htext, htext', -, hread, -, hsame⟩ :=
    serialize_determines (indices 1 12) (indices 11 2) (indices_spellable 1 12) (indices_spellable 11 2)
      (fun i hi => hwritable i (List.mem_append_left _ hi)) (fun i hi => hwritable i (List.mem_append_right _ hi))
  have hconstant : floatText 0.5 = "0.5" := by decide +kernel
  refine ⟨text, text', htext, htext', hread.trans ?_, fun heq => ?_⟩
  · simp only [indices, List.map_cons, List.map_nil, Instruction.spelled, Option.map_some, Option.map_none, hconstant]
  · have hdestinations := congrArg (List.map Instruction.destination) (hsame.mp heq)
    exact absurd hdestinations (by decide)

/-- With an index that is too long there is no text, and so no fingerprint, though the instructions can be told
    apart. -/
theorem serialize_index_too_long :
    (∀ i ∈ indices (10 ^ Decimal.integerDigitLimit) 0, i.Spellable) ∧
    serialize (indices (10 ^ Decimal.integerDigitLimit) 0) = .error Fault.integerTooLong ∧
    fingerprint (indices (10 ^ Decimal.integerDigitLimit) 0) = .error Fault.integerTooLong := by
  have hindex : Instruction.indexText (10 ^ Decimal.integerDigitLimit) = .error Fault.integerTooLong := by
    unfold Instruction.indexText
    rw [Value.isWritable_ten_pow]
    rfl
  have hbranch : Instruction.serialize ⟨"if_lt", 0, -3, .constant, some 0.5⟩ =
      .ok (",".intercalate (Instruction.fields ⟨"if_lt", 0, -3, .constant, some 0.5⟩)) :=
    Instruction.serialize_eq_ok_iff.mpr ⟨.of_small (by decide) (by decide), rfl⟩
  have hserialize : serialize (indices (10 ^ Decimal.integerDigitLimit) 0) = .error Fault.integerTooLong := by
    unfold serialize indices
    rw [List.mapM_cons, hbranch, List.mapM_cons, Instruction.serialize, hindex]
    rfl
  refine ⟨indices_spellable _ _, hserialize, ?_⟩
  unfold fingerprint
  rw [hserialize]
  rfl

end RegisterEvolution
