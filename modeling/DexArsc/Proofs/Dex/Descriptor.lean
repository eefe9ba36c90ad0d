/-
The grammar of type descriptors and member names. Each scanner takes the one part of its kind that a text starts with,
so the whole texts that are taken are those of the grammar.
-/

import DexArsc.Dex.Descriptor
import DexArsc.Proofs.Dex.Key
import Mathlib.Data.List.Basic
import Mathlib.Data.List.TakeWhile

namespace DexArsc

/-- The white space of Unicode. -/
def Text.whiteSpace : List Char :=
  ['\u0009', '\u000A', '\u000B', '\u000C', '\u000D', '\u0020', '\u0085', '\u00A0', '\u1680', '\u2000', '\u2001',
    '\u2002', '\u2003', '\u2004', '\u2005', '\u2006', '\u2007', '\u2008', '\u2009', '\u200A', '\u2028', '\u2029',
    '\u202F', '\u205F', '\u3000']

theorem Text.isBlank_iff {c : Char} : isBlank c ↔ c ∈ whiteSpace := by
  simp only [whiteSpace, isBlank, List.mem_cons, List.not_mem_nil, or_false, ← Char.toNat_inj, Bool.or_eq_true,
    Bool.and_eq_true, decide_eq_true_eq, beq_iff_eq]
  simp only [Char.reduceToNat]
  omega

namespace Dex

/-- The characters between the names of the grammar. -/
def delimiters : List Char := [';', '/', '[', '(', ')', '.', '<', '>', ':']

/-- The letters of the primitive types. -/
def primitives : List Char := ['Z', 'B', 'S', 'C', 'I', 'J', 'F', 'D']

/-- A name: at least one character, and no white space or delimiter. -/
structure SimpleName (name : List Char) : Prop where
  nonempty : name ≠ []
  letters : ∀ c ∈ name, c ∉ Text.whiteSpace ∧ c ∉ delimiters

/-- A class: its names between single slashes. -/
inductive ClassText : List Char → Prop
  | names {first : List Char} {names : List (List Char)} (simple : ∀ name ∈ first :: names, SimpleName name) :
    ClassText ('L' :: ['/'].intercalate (first :: names) ++ [';'])

/-- The type of an element: a primitive or a class. -/
inductive ElementText : List Char → Prop
  | primitive {letter : Char} (known : letter ∈ primitives) : ElementText [letter]
  | named {text : List Char} (named : ClassText text) : ElementText text

/-- A type descriptor: the type of no value, or brackets for at most 255 dimensions and their element. -/
inductive TypeText : List Char → Prop
  | void : TypeText ['V']
  | value {dimensions : Nat} {element : List Char} (few : dimensions ≤ 255) (type : ElementText element) :
    TypeText (List.replicate dimensions '[' ++ element)

/-- A member name: a constructor, a class initialiser or a simple name. -/
inductive MemberText : List Char → Prop
  | constructor : MemberText "<init>".toList
  | initialiser : MemberText "<clinit>".toList
  | simple {name : List Char} (simple : SimpleName name) : MemberText name

theorem isNameChar_iff {c : Char} : isNameChar c ↔ c ∉ Text.whiteSpace ∧ c ∉ delimiters := by
  rw [isNameChar, Bool.and_eq_true, Bool.not_eq_true', Bool.not_eq_true', ← Bool.not_eq_true, ← Bool.not_eq_true,
    Text.isBlank_iff, List.contains_iff_mem]
  rfl

theorem isPrimitive_iff {c : Char} : isPrimitive c ↔ c ∈ primitives := by
  rw [isPrimitive, List.contains_iff_mem]
  rfl

theorem simpleName_iff {name : List Char} : SimpleName name ↔ name ≠ [] ∧ ∀ c ∈ name, isNameChar c := by
  simp only [isNameChar_iff]
  exact ⟨fun simple => ⟨simple.nonempty, simple.letters⟩, fun ⟨nonempty, letters⟩ => ⟨nonempty, letters⟩⟩

/-- What a scanner takes behind other characters. -/
theorem Scanned.after_eq_some {front taken rest : List Char} {scanned : Scanned} :
    scanned.after front = some (taken, rest) ↔ ∃ more, scanned = some (more, rest) ∧ taken = front ++ more := by
  simp only [after, Option.map_eq_some_iff, Prod.exists, Prod.mk.injEq]
  constructor
  · rintro ⟨more, _, found, rfl, rfl⟩
    exact ⟨more, found, rfl⟩
  · rintro ⟨more, found, rfl⟩
    exact ⟨more, rest, found, rfl, rfl⟩

/-- A text that is not empty stands in front of others exactly when its first character does and what is left of it. -/
theorem front_cons {front : List Char → Prop} (nonempty : ¬front []) {c : Char} {text taken rest : List Char} :
    c :: text = taken ++ rest ∧ front taken ↔ ∃ more, taken = c :: more ∧ text = more ++ rest ∧ front (c :: more) := by
  constructor
  · rintro ⟨whole, stands⟩
    cases taken with
    | nil => exact absurd stands nonempty
    | cons first more =>
        obtain ⟨rfl, rfl⟩ := List.cons.inj whole
        exact ⟨more, rfl, rfl, stands⟩
  · rintro ⟨more, rfl, rfl, stands⟩
    exact ⟨rfl, stands⟩

theorem not_front_nil {front : List Char → Prop} (nonempty : ¬front []) {taken rest : List Char} :
    ¬([] = taken ++ rest ∧ front taken) := by
  rintro ⟨empty, stands⟩
  exact nonempty ((List.append_eq_nil_iff.1 empty.symm).1 ▸ stands)

theorem one_eq_some {c : Char} {text taken rest : List Char} : some ([c], text) = some (taken, rest) ↔
    ∃ more, taken = c :: more ∧ text = more ++ rest ∧ more = [] := by
  simp only [Option.some.injEq, Prod.mk.injEq]
  constructor
  · rintro ⟨rfl, rfl⟩
    exact ⟨[], rfl, rfl, rfl⟩
  · rintro ⟨_, rfl, rfl, rfl⟩
    exact ⟨rfl, rfl⟩

/-- What is left of a class behind its `L`. The flag tells whether the current name has a character yet. -/
inductive ClassTail : (started : Bool) → List Char → Prop
  | stop : ClassTail true [';']
  | slash {rest : List Char} (next : ClassTail false rest) : ClassTail true ('/' :: rest)
  | letter {started : Bool} {c : Char} {rest : List Char} (name : isNameChar c) (next : ClassTail true rest) :
    ClassTail started (c :: rest)

theorem classTail_semicolon {started : Bool} {rest : List Char} :
    ClassTail started (';' :: rest) ↔ started ∧ rest = [] := by
  constructor
  · rintro (_ | _ | ⟨name⟩)
    · exact ⟨rfl, rfl⟩
    · exact absurd name (by decide)
  · rintro ⟨rfl, rfl⟩
    exact .stop

theorem classTail_slash {started : Bool} {rest : List Char} :
    ClassTail started ('/' :: rest) ↔ started ∧ ClassTail false rest := by
  constructor
  · rintro (_ | next | ⟨name⟩)
    · exact ⟨rfl, next⟩
    · exact absurd name (by decide)
  · rintro ⟨rfl, next⟩
    exact .slash next

theorem classTail_letter {started : Bool} {c : Char} {rest : List Char} (semicolon : c ≠ ';') (slash : c ≠ '/') :
    ClassTail started (c :: rest) ↔ isNameChar c ∧ ClassTail true rest := by
  constructor
  · rintro (_ | _ | ⟨name, next⟩)
    · exact absurd rfl semicolon
    · exact absurd rfl slash
    · exact ⟨name, next⟩
  · rintro ⟨name, next⟩
    exact .letter name next

theorem not_classTail_nil {started : Bool} : ¬ClassTail started [] := by
  rintro ⟨⟩

/-- The scanner of classes takes the one tail that a text starts with. -/
theorem scanClassName_eq_some {started : Bool} {text taken rest : List Char} :
    scanClassName started text = some (taken, rest) ↔ text = taken ++ rest ∧ ClassTail started taken := by
  fun_induction scanClassName started text generalizing taken with
  | case1 => simp only [reduceCtorEq, not_front_nil not_classTail_nil]
  | case2 text => simp only [front_cons not_classTail_nil, classTail_semicolon, one_eq_some, true_and]
  | case3 started text early => simp [front_cons not_classTail_nil, classTail_semicolon, early]
  | case4 text ih =>
      simp only [Scanned.after_eq_some, front_cons not_classTail_nil, classTail_slash, ih, true_and]
      exact exists_congr fun more => and_comm
  | case5 started text early => simp [front_cons not_classTail_nil, classTail_slash, early]
  | case6 started c text semicolon slash name ih =>
      simp only [Scanned.after_eq_some, front_cons not_classTail_nil, classTail_letter semicolon slash, ih, name,
        true_and]
      exact exists_congr fun more => and_comm
  | case7 started c text semicolon slash other =>
      simp [front_cons not_classTail_nil, classTail_letter semicolon slash, other]

theorem ClassTail.append {started : Bool} {name rest : List Char} (letters : ∀ c ∈ name, isNameChar c)
    (some : started ∨ name ≠ []) (next : ClassTail true rest) : ClassTail started (name ++ rest) := by
  induction name generalizing started with
  | nil =>
      obtain rfl : started = true := by simpa using some
      exact next
  | cons c name ih =>
      obtain ⟨first, others⟩ := List.forall_mem_cons.1 letters
      exact .letter first (ih others (.inl rfl))

theorem intercalate_cons (first : List Char) (names : List (List Char)) :
    ['/'].intercalate (first :: names) = first ++ names.flatMap ('/' :: ·) := by
  induction names generalizing first with
  | nil => simp [List.intercalate]
  | cons second names ih => simpa [List.intercalate] using ih second

/-- A tail is the rest of a name and further names, each behind a slash, with a semicolon at the end. -/
theorem classTail_iff {started : Bool} {tail : List Char} : ClassTail started tail ↔
    ∃ first names, (∀ c ∈ first, isNameChar c) ∧ (started ∨ first ≠ []) ∧ (∀ name ∈ names, SimpleName name) ∧
      tail = ['/'].intercalate (first :: names) ++ [';'] := by
  constructor
  · intro tail
    induction tail with
    | stop => exact ⟨[], [], by simp, .inl rfl, by simp, rfl⟩
    | slash _ ih =>
        obtain ⟨first, names, letters, some, simple, rfl⟩ := ih
        have nonempty : first ≠ [] := by simpa using some
        refine ⟨[], first :: names, by simp, .inl rfl,
          List.forall_mem_cons.2 ⟨simpleName_iff.2 ⟨nonempty, letters⟩, simple⟩, ?_⟩
        simp only [intercalate_cons, List.flatMap_cons, List.nil_append, List.cons_append]
    | letter name _ ih =>
        obtain ⟨first, names, letters, _, simple, rfl⟩ := ih
        refine ⟨_ :: first, names, List.forall_mem_cons.2 ⟨name, letters⟩, .inr (List.cons_ne_nil _ _), simple, ?_⟩
        simp only [intercalate_cons, List.cons_append]
  · rintro ⟨first, names, letters, some, simple, rfl⟩
    rw [intercalate_cons, List.append_assoc]
    refine ClassTail.append letters some ?_
    clear letters some
    induction names with
    | nil => exact .stop
    | cons name names ih =>
        obtain ⟨simple, others⟩ := List.forall_mem_cons.1 simple
        obtain ⟨nonempty, letters⟩ := simpleName_iff.1 simple
        rw [List.flatMap_cons, List.cons_append, List.cons_append, List.append_assoc]
        exact .slash (ClassTail.append letters (.inr nonempty) (ih others))

theorem classTail_false_iff {tail : List Char} : ClassTail false tail ↔ ClassText ('L' :: tail) := by
  rw [classTail_iff]
  constructor
  · rintro ⟨first, names, letters, some, simple, rfl⟩
    have nonempty : first ≠ [] := by simpa using some
    exact .names (List.forall_mem_cons.2 ⟨simpleName_iff.2 ⟨nonempty, letters⟩, simple⟩)
  · intro named
    generalize whole : 'L' :: tail = text at named
    obtain ⟨simple⟩ := named
    obtain ⟨simple, others⟩ := List.forall_mem_cons.1 simple
    obtain ⟨nonempty, letters⟩ := simpleName_iff.1 simple
    exact ⟨_, _, letters, .inr nonempty, others, (List.cons.inj whole).2⟩

theorem elementText_cons {c : Char} {rest : List Char} :
    ElementText (c :: rest) ↔ c ∈ primitives ∧ rest = [] ∨ c = 'L' ∧ ClassTail false rest := by
  constructor
  · generalize whole : c :: rest = text
    rintro (@⟨letter, known⟩ | named)
    · obtain ⟨rfl, rfl⟩ := List.cons.inj whole
      exact .inl ⟨known, rfl⟩
    · subst whole
      obtain rfl : c = 'L' := by
        cases named
        rfl
      exact .inr ⟨rfl, classTail_false_iff.2 named⟩
  · rintro (⟨known, rfl⟩ | ⟨rfl, tail⟩)
    · exact .primitive known
    · exact .named (classTail_false_iff.1 tail)

theorem ElementText.head {c : Char} {rest : List Char} (type : ElementText (c :: rest)) : c ∈ 'L' :: primitives := by
  obtain ⟨known, _⟩ | ⟨rfl, _⟩ := elementText_cons.1 type
  · exact List.mem_cons_of_mem _ known
  · exact List.mem_cons_self

/-- The type of a value: brackets and their element. -/
def ValueText (text : List Char) : Prop :=
  ∃ dimensions element, ElementText element ∧ text = List.replicate dimensions '[' ++ element

theorem not_elementText_nil : ¬ElementText [] := by
  generalize empty : ([] : List Char) = text
  rintro (_ | ⟨⟨_⟩⟩) <;> cases empty

theorem not_valueText_nil : ¬ValueText [] := by
  rintro ⟨dimensions, element, type, empty⟩
  exact not_elementText_nil ((List.append_eq_nil_iff.1 empty.symm).2 ▸ type)

theorem valueText_bracket {rest : List Char} : ValueText ('[' :: rest) ↔ ValueText rest := by
  constructor
  · rintro ⟨dimensions, element, type, whole⟩
    cases dimensions with
    | zero =>
        obtain rfl : '[' :: rest = element := whole
        exact absurd type.head (by decide)
    | succ dimensions => exact ⟨dimensions, element, type, (List.cons.inj whole).2⟩
  · rintro ⟨dimensions, element, type, rfl⟩
    exact ⟨dimensions + 1, element, type, rfl⟩

theorem valueText_element {c : Char} {rest : List Char} (bracket : c ≠ '[') :
    ValueText (c :: rest) ↔ ElementText (c :: rest) := by
  constructor
  · rintro ⟨dimensions, element, type, whole⟩
    cases dimensions with
    | zero => exact whole ▸ type
    | succ dimensions => exact absurd (List.cons.inj whole).1 bracket
  · exact fun type => ⟨0, _, type, rfl⟩

/-- The scanner of value types takes the one that a text starts with. -/
theorem scanValueType_eq_some {text taken rest : List Char} :
    scanValueType text = some (taken, rest) ↔ text = taken ++ rest ∧ ValueText taken := by
  have letter : 'L' ∉ primitives := by decide
  fun_induction scanValueType text generalizing taken with
  | case1 => simp only [reduceCtorEq, not_front_nil not_valueText_nil]
  | case2 text ih =>
      simp only [Scanned.after_eq_some, front_cons not_valueText_nil, valueText_bracket, ih]
      exact exists_congr fun more => and_comm
  | case3 text =>
      simp only [Scanned.after_eq_some, scanClassName_eq_some, front_cons not_valueText_nil,
        valueText_element (by decide : 'L' ≠ '['), elementText_cons, letter, false_and, false_or, true_and]
      exact exists_congr fun more => and_comm
  | case4 c text bracket letter known =>
      have other : ¬c = 'L' := letter
      simp only [front_cons not_valueText_nil, valueText_element bracket, elementText_cons, isPrimitive_iff.1 known,
        other, one_eq_some, true_and, false_and, or_false]
  | case5 c text bracket letter unknown =>
      have other : ¬c = 'L' := letter
      rw [isPrimitive_iff] at unknown
      simp [front_cons not_valueText_nil, valueText_element bracket, elementText_cons, unknown, other]

theorem takesAll_iff {scan : List Char → Scanned} {text : String} :
    takesAll scan text ↔ ∃ taken, scan text.toList = some (taken, []) := by
  unfold takesAll
  split
  case h_1 taken found => simp [found]
  case h_2 other =>
    simp only [Bool.false_eq_true, false_iff]
    exact fun ⟨taken, found⟩ => other taken found

theorem not_valueText_void {rest : List Char} : ¬ValueText ('V' :: rest) := by
  rw [valueText_element (by decide)]
  exact fun type => absurd type.head (by decide)

/-- The scanner of return types takes the type of no value or of a value that a text starts with. -/
theorem scanReturnType_eq_some {text taken rest : List Char} :
    scanReturnType text = some (taken, rest) ↔ text = taken ++ rest ∧ (taken = ['V'] ∨ ValueText taken) := by
  unfold scanReturnType
  split
  case h_1 text =>
    simp only [Option.some.injEq, Prod.mk.injEq]
    constructor
    · rintro ⟨rfl, rfl⟩
      exact ⟨rfl, .inl rfl⟩
    · rintro ⟨whole, rfl | type⟩
      · exact ⟨rfl, (List.cons.inj whole).2⟩
      · obtain ⟨more, rfl, -, type⟩ := (front_cons not_valueText_nil).1 ⟨whole, type⟩
        exact absurd type not_valueText_void
  case h_2 other =>
    rw [scanValueType_eq_some]
    refine and_congr_right fun whole => ?_
    have void : taken ≠ ['V'] := fun void => other rest (by rw [whole, void]; rfl)
    simp only [void, false_or]

theorem takesAll_scanReturnType {text : String} :
    takesAll scanReturnType text ↔ text.toList = ['V'] ∨ ValueText text.toList := by
  simp only [takesAll_iff, scanReturnType_eq_some, List.append_nil]
  exact exists_eq_left'

theorem takeWhile_dimensions {element : List Char} (type : ElementText element) (dimensions : Nat) :
    ((List.replicate dimensions '[' ++ element).takeWhile (· == '[')).length = dimensions := by
  have none : element.takeWhile (· == '[') = [] := by
    cases element with
    | nil => rfl
    | cons c rest =>
        refine List.takeWhile_cons_of_neg fun bracket => ?_
        obtain rfl : c = '[' := by simpa using bracket
        exact absurd type.head (by decide)
  rw [List.takeWhile_append_of_pos (by simp), none, List.append_nil, List.length_replicate]

theorem typeText_iff {text : List Char} : TypeText text ↔
    (text.takeWhile (· == '[')).length ≤ 255 ∧ (text = ['V'] ∨ ValueText text) := by
  constructor
  · rintro (_ | ⟨few, type⟩)
    · exact ⟨by decide, .inl rfl⟩
    · rw [takeWhile_dimensions type]
      exact ⟨few, .inr ⟨_, _, type, rfl⟩⟩
  · rintro ⟨few, rfl | ⟨dimensions, element, type, rfl⟩⟩
    · exact .void
    · rw [takeWhile_dimensions type] at few
      exact .value few type

theorem isTypeDescriptor_iff {text : String} : isTypeDescriptor text ↔ TypeText text.toList := by
  rw [isTypeDescriptor, Bool.and_eq_true, decide_eq_true_eq, takesAll_scanReturnType, typeText_iff]
  rfl

theorem scanText_eq_some {fixed : String} {text taken rest : List Char} :
    scanText fixed text = some (taken, rest) ↔ taken = fixed.toList ∧ text = fixed.toList ++ rest := by
  simp only [scanText, Option.map_eq_some_iff, Prod.mk.injEq, List.isPrefixOf?_eq_some_iff_append_eq]
  constructor
  · rintro ⟨_, whole, rfl, rfl⟩
    exact ⟨rfl, whole.symm⟩
  · rintro ⟨rfl, rfl⟩
    exact ⟨rest, rfl, rfl, rfl⟩

/-- The scanner of names takes the one that a text starts with, when no character behind it belongs to a name. -/
theorem scanName_eq_some {text taken rest : List Char} (stop : rest.takeWhile isNameChar = []) :
    scanName text = some (taken, rest) ↔ text = taken ++ rest ∧ SimpleName taken := by
  rw [simpleName_iff]
  simp only [scanName]
  constructor
  · intro found
    split at found
    case isTrue => cases found
    case isFalse some =>
      obtain ⟨rfl, rfl⟩ := Prod.mk.inj (Option.some.inj found)
      exact ⟨List.takeWhile_append_dropWhile.symm, by simpa using some, fun c inside => List.mem_takeWhile_imp inside⟩
  · rintro ⟨rfl, some, letters⟩
    have name : (taken ++ rest).takeWhile isNameChar = taken := by
      rw [List.takeWhile_append_of_pos letters, stop, List.append_nil]
    have left : rest.dropWhile isNameChar = rest := by
      simpa only [stop, List.nil_append] using List.takeWhile_append_dropWhile (p := isNameChar) (l := rest)
    rw [name, List.dropWhile_append_of_pos letters, left, if_neg (by simpa using some)]

/-- No simple name starts with a bracket, so the fixed names do not hide any. -/
theorem scanText_eq_none {fixed : String} {name rest : List Char} (bracket : fixed.toList.head? = some '<')
    (simple : SimpleName name) : scanText fixed (name ++ rest) = none := by
  rw [Option.eq_none_iff_forall_ne_some]
  rintro ⟨taken, behind⟩ found
  obtain ⟨_, whole⟩ := scanText_eq_some.1 found
  obtain ⟨c, more, rfl⟩ := List.exists_cons_of_ne_nil simple.nonempty
  obtain ⟨others, chars⟩ := List.head?_eq_some_iff.1 bracket
  rw [chars] at whole
  obtain rfl : c = '<' := (List.cons.inj whole).1
  exact (simple.letters '<' List.mem_cons_self).2 (by decide)

/-- The scanner of member names takes the one that a text starts with, when no character behind it belongs to a name. -/
theorem scanMemberName_eq_some {text taken rest : List Char} (stop : rest.takeWhile isNameChar = []) :
    scanMemberName text = some (taken, rest) ↔ text = taken ++ rest ∧ MemberText taken := by
  constructor
  · intro found
    rw [scanMemberName, Option.or_eq_some_iff, Option.or_eq_some_iff] at found
    obtain found | ⟨_, found | ⟨_, found⟩⟩ := found
    · obtain ⟨rfl, whole⟩ := scanText_eq_some.1 found
      exact ⟨whole, .constructor⟩
    · obtain ⟨rfl, whole⟩ := scanText_eq_some.1 found
      exact ⟨whole, .initialiser⟩
    · obtain ⟨whole, simple⟩ := (scanName_eq_some stop).1 found
      exact ⟨whole, .simple simple⟩
  · rintro ⟨rfl, _ | _ | ⟨simple⟩⟩
    · rfl
    · rfl
    · rw [scanMemberName, scanText_eq_none rfl simple, scanText_eq_none rfl simple]
      exact (scanName_eq_some stop).2 ⟨rfl, simple⟩

theorem isMemberName_iff {text : String} : isMemberName text ↔ MemberText text.toList := by
  have stop : ([] : List Char).takeWhile isNameChar = [] := rfl
  simp only [isMemberName, takesAll_iff, scanMemberName_eq_some stop, List.append_nil]
  exact exists_eq_left'

/-- The type descriptors are the texts of the grammar, and so are the member names. -/
theorem check_eq_ok_iff_grammar (text : String) :
    (checkTypeDescriptor text = .ok () ↔ TypeText text.toList) ∧
      (checkMemberName text = .ok () ↔ MemberText text.toList) := by
  rw [checkTypeDescriptor_eq_ok, checkMemberName_eq_ok]
  exact ⟨isTypeDescriptor_iff, isMemberName_iff⟩

end Dex
end DexArsc
