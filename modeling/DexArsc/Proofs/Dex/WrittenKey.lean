/-
The written forms of keys. A key is scanned from a text exactly when the text starts with the written form of the key,
so a text that is read is the written form of what is read from it. No separator stands between the parameters of a
prototype: no type starts with another one, so they are told apart without it.
-/

import DexArsc.Proofs.Dex.Descriptor

namespace DexArsc.Dex

theorem scanValueType_parenthesis {rest : List Char} : scanValueType (')' :: rest) = none := rfl

/-- Parameters are scanned up to the parenthesis behind them, one for each step of the scan. -/
theorem scanParameters_eq_some {fuel : Nat} {text rest : List Char} {types : List String} :
    scanParameters fuel text = some (types, rest) ↔ text = types.flatMap String.toList ++ ')' :: rest ∧
      (∀ type ∈ types, ValueText type.toList) ∧ types.length ≤ fuel := by
  have closed {type : String} {types : List String} {text : List Char} (value : ValueText type.toList) :
      ')' :: text ≠ (type :: types).flatMap String.toList ++ ')' :: rest := fun whole => by
    rw [List.flatMap_cons, List.append_assoc] at whole
    cases scanValueType_parenthesis.symm.trans (scanValueType_eq_some.2 ⟨whole, value⟩)
  fun_induction scanParameters fuel text generalizing types with
  | case1 fuel text =>
      cases types with
      | nil => simp
      | cons type types =>
          simp only [Option.some.injEq, Prod.mk.injEq, reduceCtorEq, false_and, false_iff, List.forall_mem_cons]
          exact fun ⟨whole, ⟨value, _⟩, _⟩ => closed value whole
  | case2 text other =>
      simp only [reduceCtorEq, false_iff, Nat.le_zero, List.length_eq_zero_iff]
      rintro ⟨whole, -, rfl⟩
      exact other rest whole
  | case3 fuel text other ih =>
      simp only [Option.bind_eq_bind, Option.bind_eq_some_iff, Prod.exists, scanValueType_eq_some]
      constructor
      · rintro ⟨taken, behind, ⟨rfl, value⟩, types, _, found, result⟩
        cases result
        obtain ⟨rfl, values, enough⟩ := (ih _).1 found
        refine ⟨by simp, List.forall_mem_cons.2 ⟨?_, values⟩, Nat.succ_le_succ enough⟩
        rwa [String.toList_ofList]
      · rintro ⟨rfl, values, enough⟩
        cases types with
        | nil => exact (other rest rfl).elim
        | cons type types =>
            obtain ⟨value, values⟩ := List.forall_mem_cons.1 values
            refine ⟨type.toList, _, ⟨?_, value⟩, types, rest, (ih _).2 ⟨rfl, values, Nat.le_of_succ_le_succ enough⟩, ?_⟩
            · rw [List.flatMap_cons, List.append_assoc]
            · rw [String.ofList_toList]
              rfl

/-- Every type has a character, so a text has at least as many characters as types. -/
theorem length_le_flatMap_text {types : List String} (values : ∀ type ∈ types, ValueText type.toList) :
    types.length ≤ (types.flatMap String.toList).length := by
  induction types with
  | nil => exact Nat.le_refl _
  | cons type types ih =>
      obtain ⟨value, values⟩ := List.forall_mem_cons.1 values
      have some : 0 < type.toList.length :=
        List.length_pos_iff.2 fun empty => not_valueText_nil (empty ▸ value)
      have others := ih values
      simp only [List.flatMap_cons, List.length_append, List.length_cons]
      omega

namespace Prototype

/-- A prototype that can be told from its written form: each of its types ends where the grammar says. -/
structure Spelled (key : Prototype) : Prop where
  result : key.returnType.toList = ['V'] ∨ ValueText key.returnType.toList
  parameters : ∀ parameter ∈ key.parameters, ValueText parameter.toList

theorem toList_text (key : Prototype) :
    key.text.toList = '(' :: (key.parameters.flatMap String.toList ++ ')' :: key.returnType.toList) := by
  simp [text]

end Prototype

/-- A prototype is scanned from its written form, and from no other text. -/
theorem scanPrototype_eq_some {text rest : List Char} {key : Prototype} :
    scanPrototype text = some (key, rest) ↔ text = key.text.toList ++ rest ∧ key.Spelled := by
  simp only [scanPrototype, Option.bind_eq_bind, Option.bind_eq_some_iff, Prod.exists, scanText_eq_some,
    scanParameters_eq_some, scanReturnType_eq_some]
  constructor
  · rintro ⟨_, _, ⟨-, rfl⟩, parameters, _, ⟨rfl, values, -⟩, returnType, _, ⟨rfl, result⟩, found⟩
    cases found
    refine ⟨?_, ?_, values⟩
    · rw [Prototype.toList_text]
      simp
    · rwa [String.toList_ofList]
  · rintro ⟨rfl, spelled⟩
    have enough := length_le_flatMap_text spelled.parameters
    refine ⟨_, _, ⟨rfl, ?_⟩, key.parameters, _, ⟨rfl, spelled.parameters, ?_⟩, key.returnType.toList, rest,
      ⟨rfl, spelled.result⟩, ?_⟩
    · rw [Prototype.toList_text]
      simp
    · rw [List.length_append]
      omega
    · rw [String.ofList_toList]
      rfl

/-- A field key is scanned from its written form, and from no other text. -/
theorem FieldKey.scan_eq_some {text rest : List Char} {key : FieldKey} : scan text = some (key, rest) ↔
    text = key.text.toList ++ rest ∧ ValueText key.owner.toList ∧ MemberText key.name.toList ∧
      ValueText key.type.toList := by
  simp only [scan, Option.bind_eq_bind, Option.bind_eq_some_iff, Prod.exists, scanText_eq_some, scanValueType_eq_some]
  constructor
  · rintro ⟨owner, _, ⟨rfl, class'⟩, _, _, ⟨-, rfl⟩, name, _, named, _, _, ⟨-, rfl⟩, type, _, ⟨rfl, value⟩, found⟩
    cases found
    obtain ⟨rfl, member⟩ := (scanMemberName_eq_some rfl).1 named
    simp only [String.toList_ofList]
    exact ⟨by simp [FieldKey.text], class', member, value⟩
  · rintro ⟨rfl, class', member, value⟩
    refine ⟨key.owner.toList, _, ⟨?_, class'⟩, _, _, ⟨rfl, rfl⟩, key.name.toList, _,
      (scanMemberName_eq_some rfl).2 ⟨rfl, member⟩, _, _, ⟨rfl, rfl⟩, key.type.toList, rest, ⟨rfl, value⟩, ?_⟩
    · simp [FieldKey.text]
    · simp only [String.ofList_toList]
      rfl

/-- A method key is scanned from its written form, and from no other text. -/
theorem MethodKey.scan_eq_some {text rest : List Char} {key : MethodKey} : scan text = some (key, rest) ↔
    text = key.text.toList ++ rest ∧ ValueText key.owner.toList ∧ MemberText key.name.toList ∧
      key.prototype.Spelled := by
  simp only [scan, Option.bind_eq_bind, Option.bind_eq_some_iff, Prod.exists, scanText_eq_some, scanValueType_eq_some,
    scanPrototype_eq_some]
  constructor
  · rintro ⟨owner, _, ⟨rfl, class'⟩, _, _, ⟨-, rfl⟩, name, _, named, prototype, _, ⟨rfl, spelled⟩, found⟩
    cases found
    rw [Prototype.toList_text] at named
    obtain ⟨rfl, member⟩ := (scanMemberName_eq_some rfl).1 named
    simp only [String.toList_ofList]
    exact ⟨by simp [MethodKey.text, Prototype.toList_text], class', member, spelled⟩
  · rintro ⟨rfl, class', member, spelled⟩
    refine ⟨key.owner.toList, _, ⟨?_, class'⟩, _, _, ⟨rfl, rfl⟩, key.name.toList, _,
      (scanMemberName_eq_some ?_).2 ⟨rfl, member⟩, key.prototype, rest, ⟨rfl, spelled⟩, ?_⟩
    · simp [MethodKey.text]
    · rw [Prototype.toList_text]
      rfl
    · simp only [String.ofList_toList]
      rfl

/-- A type descriptor is the type of a value when it is not the type of no value. -/
theorem valueText_iff {text : String} (grammar : isTypeDescriptor text) : ValueText text.toList ↔ text ≠ "V" := by
  constructor
  · rintro value rfl
    exact not_valueText_void value
  · intro other
    obtain ⟨-, void | value⟩ := typeText_iff.1 (isTypeDescriptor_iff.1 grammar)
    · exact absurd (String.toList_inj.1 void) other
    · exact value

theorem Prototype.spelled_of_check {key : Prototype} (valid : key.check = .ok ()) : key.Spelled := by
  obtain ⟨result, parameters⟩ := check_eq_ok.1 valid
  refine ⟨(typeText_iff.1 (isTypeDescriptor_iff.1 result)).2, fun parameter inside => ?_⟩
  obtain ⟨grammar, value⟩ := parameters parameter inside
  exact (valueText_iff grammar).2 value

/-- What is returned behind a check. -/
theorem checked_eq_ok {β : Type} {check : Except Fault Unit} {value result : β} :
    (do check; return value) = .ok result ↔ check = .ok () ∧ value = result := by
  rw [Except.check_eq_ok]
  exact and_congr_right fun _ => ⟨Except.ok.inj, congrArg _⟩

/-- A prototype is read from its written form when its parts follow the grammar. -/
theorem Prototype.parse_eq_ok {text : String} {key : Prototype} :
    parse text = .ok key ↔ text = key.text ∧ key.check = .ok () := by
  unfold parse
  constructor
  · intro run
    split at run
    case h_1 found scanned =>
      obtain ⟨valid, rfl⟩ := checked_eq_ok.1 run
      obtain ⟨whole, -⟩ := scanPrototype_eq_some.1 scanned
      exact ⟨String.toList_inj.1 (by rw [whole, List.append_nil]), valid⟩
    case h_2 => exact absurd run Except.fail_ne_ok
  · rintro ⟨rfl, valid⟩
    rw [scanPrototype_eq_some.2 ⟨(List.append_nil _).symm, spelled_of_check valid⟩]
    exact checked_eq_ok.2 ⟨valid, rfl⟩

/-- A field key is read from its written form when its parts follow the grammar and its class has values. -/
theorem FieldKey.parse_eq_ok {text : String} {key : FieldKey} :
    parse text = .ok key ↔ text = key.text ∧ key.check = .ok () ∧ key.owner ≠ "V" := by
  unfold parse
  constructor
  · intro run
    split at run
    case h_1 found scanned =>
      obtain ⟨valid, rfl⟩ := checked_eq_ok.1 run
      obtain ⟨whole, owner, -⟩ := scan_eq_some.1 scanned
      have grammar := (check_eq_ok.1 valid).1
      exact ⟨String.toList_inj.1 (by rw [whole, List.append_nil]), valid, (valueText_iff grammar).1 owner⟩
    case h_2 => exact absurd run Except.fail_ne_ok
  · rintro ⟨rfl, valid, other⟩
    obtain ⟨owner, name, type, value⟩ := check_eq_ok.1 valid
    rw [scan_eq_some.2 ⟨(List.append_nil _).symm, (valueText_iff owner).2 other, isMemberName_iff.1 name,
      (valueText_iff type).2 value⟩]
    exact checked_eq_ok.2 ⟨valid, rfl⟩

/-- A method key is read from its written form when its parts follow the grammar and its class has values. -/
theorem MethodKey.parse_eq_ok {text : String} {key : MethodKey} : parse text = .ok key ↔
    text = key.text ∧ key.prototype.check = .ok () ∧ key.checkNames = .ok () ∧ key.owner ≠ "V" := by
  unfold parse
  constructor
  · intro run
    split at run
    case h_1 found scanned =>
      obtain ⟨valid, checked⟩ := Except.check_eq_ok.1 run
      obtain ⟨names, rfl⟩ := checked_eq_ok.1 checked
      obtain ⟨whole, owner, -⟩ := scan_eq_some.1 scanned
      have grammar := (checkNames_eq_ok.1 names).1
      exact ⟨String.toList_inj.1 (by rw [whole, List.append_nil]), valid, names, (valueText_iff grammar).1 owner⟩
    case h_2 => exact absurd run Except.fail_ne_ok
  · rintro ⟨rfl, valid, names, other⟩
    obtain ⟨owner, name⟩ := checkNames_eq_ok.1 names
    rw [scan_eq_some.2 ⟨(List.append_nil _).symm, (valueText_iff owner).2 other, isMemberName_iff.1 name,
      Prototype.spelled_of_check valid⟩]
    exact Except.check_eq_ok.2 ⟨valid, checked_eq_ok.2 ⟨names, rfl⟩⟩

/-- A prototype that is made is read from its written form, and every key that is read from a text has this text as its
written form. -/
theorem parse_text_text_parse :
    (∀ (returnType : String) (parameters : List String) (key : Prototype),
      Prototype.make returnType parameters = .ok key → Prototype.parse key.text = .ok { returnType, parameters }) ∧
      (∀ (text : String) (key : Prototype), Prototype.parse text = .ok key → key.text = text) ∧
      (∀ (text : String) (key : FieldKey), FieldKey.parse text = .ok key → key.text = text) ∧
      ∀ (text : String) (key : MethodKey), MethodKey.parse text = .ok key → key.text = text := by
  refine ⟨fun returnType parameters key made => ?_, fun text key run => ?_, fun text key run => ?_,
    fun text key run => ?_⟩
  · obtain ⟨valid, rfl⟩ := checked_eq_ok.1 made
    exact Prototype.parse_eq_ok.2 ⟨rfl, valid⟩
  · exact (Prototype.parse_eq_ok.1 run).1.symm
  · exact (FieldKey.parse_eq_ok.1 run).1.symm
  · exact (MethodKey.parse_eq_ok.1 run).1.symm

/-- Classes whose names are letters of primitive types, and arrays of them, without separators between them. -/
theorem parse_text_text_parse_letters :
    Prototype.make "[LV;" ["I", "[[LI/J;", "[Z", "LLL;"] = .ok ⟨"[LV;", ["I", "[[LI/J;", "[Z", "LLL;"]⟩ ∧
      Prototype.parse "(I[[LI/J;[ZLLL;)[LV;" = .ok ⟨"[LV;", ["I", "[[LI/J;", "[Z", "LLL;"]⟩ ∧
      Prototype.text ⟨"[LV;", ["I", "[[LI/J;", "[Z", "LLL;"]⟩ = "(I[[LI/J;[ZLLL;)[LV;" ∧
      FieldKey.parse "LI;->V-:[J" = .ok ⟨"LI;", "V-", "[J"⟩ ∧ FieldKey.text ⟨"LI;", "V-", "[J"⟩ = "LI;->V-:[J" ∧
      MethodKey.parse "[I-><init>(ILI;)V" = .ok ⟨"[I", "<init>", "V", ["I", "LI;"]⟩ ∧
      MethodKey.text ⟨"[I", "<init>", "V", ["I", "LI;"]⟩ = "[I-><init>(ILI;)V" := by
  have made : Prototype.make "[LV;" ["I", "[[LI/J;", "[Z", "LLL;"] = .ok ⟨"[LV;", ["I", "[[LI/J;", "[Z", "LLL;"]⟩ := by
    decide
  have field : FieldKey.parse "LI;->V-:[J" = .ok ⟨"LI;", "V-", "[J"⟩ := by decide
  have method : MethodKey.parse "[I-><init>(ILI;)V" = .ok ⟨"[I", "<init>", "V", ["I", "LI;"]⟩ := by decide
  obtain ⟨reads, prototypes, fields, methods⟩ := parse_text_text_parse
  exact ⟨made, reads _ _ _ made, prototypes _ _ (reads _ _ _ made), field, fields _ _ field, method, methods _ _ method⟩

/-- No type of a value starts with the letter of no value, so a field key of such a class is not read back. -/
theorem FieldKey.parse_void {name type : String} :
    parse (text ⟨"V", name, type⟩) = malformed .fieldReference (text ⟨"V", name, type⟩) := by
  have refused : scan (text ⟨"V", name, type⟩).toList = none := by
    simp only [text, String.toList_append, List.append_assoc]
    rfl
  unfold parse
  rw [refused]

theorem MethodKey.parse_void {name : String} {prototype : Prototype} :
    parse (text ⟨"V", name, prototype⟩) = malformed .methodReference (text ⟨"V", name, prototype⟩) := by
  have refused : scan (text ⟨"V", name, prototype⟩).toList = none := by
    simp only [text, String.toList_append, List.append_assoc]
    rfl
  unfold parse
  rw [refused]

/-- A member key that is made is read from its written form, unless its class is the type of no value: the written forms
of such keys are refused. -/
theorem parse_text_member (owner name : String) :
    (∀ (type : String) (key : FieldKey), FieldKey.make owner name type = .ok key →
      FieldKey.parse key.text = if owner = "V" then malformed .fieldReference key.text else .ok key) ∧
      ∀ (returnType : String) (parameters : List String) (prototype : Prototype) (key : MethodKey),
        Prototype.make returnType parameters = .ok prototype → MethodKey.make owner name prototype = .ok key →
          MethodKey.parse key.text = if owner = "V" then malformed .methodReference key.text else .ok key := by
  constructor
  · intro type key made
    obtain ⟨valid, rfl⟩ := checked_eq_ok.1 made
    split
    case isTrue void =>
      subst void
      exact FieldKey.parse_void
    case isFalse other => exact FieldKey.parse_eq_ok.2 ⟨rfl, valid, other⟩
  · intro returnType parameters prototype key signature made
    obtain ⟨valid, rfl⟩ := checked_eq_ok.1 signature
    obtain ⟨names, rfl⟩ := checked_eq_ok.1 made
    split
    case isTrue void =>
      subst void
      exact MethodKey.parse_void
    case isFalse other => exact MethodKey.parse_eq_ok.2 ⟨rfl, valid, names, other⟩

/-- A field of the type of no value is made and not read back, and a method of an array is read back. -/
theorem parse_text_member_void :
    FieldKey.make "V" "x" "I" = .ok ⟨"V", "x", "I"⟩ ∧
      FieldKey.parse "V->x:I" = malformed .fieldReference "V->x:I" ∧
      MethodKey.make "[LI;" "<clinit>" ⟨"V", ["[J"]⟩ = .ok ⟨"[LI;", "<clinit>", "V", ["[J"]⟩ ∧
      MethodKey.parse "[LI;-><clinit>([J)V" = .ok ⟨"[LI;", "<clinit>", "V", ["[J"]⟩ := by
  have field : FieldKey.make "V" "x" "I" = .ok ⟨"V", "x", "I"⟩ := by decide
  have signature : Prototype.make "V" ["[J"] = .ok ⟨"V", ["[J"]⟩ := by decide
  have method : MethodKey.make "[LI;" "<clinit>" ⟨"V", ["[J"]⟩ = .ok ⟨"[LI;", "<clinit>", "V", ["[J"]⟩ := by decide
  exact ⟨field, (parse_text_member "V" "x").1 "I" _ field, method,
    (parse_text_member "[LI;" "<clinit>").2 "V" ["[J"] _ _ signature method⟩

end DexArsc.Dex
