/-
The grammar of type descriptors and member names. A scanner takes the part at the start of a
text that it describes and leaves the rest.
-/

import DexArsc.Fault

namespace DexArsc.Dex

/-- What a scanner takes and what it leaves. -/
abbrev Scanned := Option (List Char × List Char)

/-- The characters of names: no blank and no delimiter of the grammar. -/
def isNameChar (c : Char) : Bool :=
  !Text.isBlank c && !";/[().<>:".toList.contains c

/-- The primitive types except the type of no value. -/
def isPrimitive (c : Char) : Bool :=
  "ZBSCIJFD".toList.contains c

/-- The characters that a scanner takes before those that another one takes. -/
def Scanned.after (taken : List Char) (scanned : Scanned) : Scanned :=
  scanned.map fun (more, rest) => (taken ++ more, rest)

/-- A class name behind its `L`: names between single slashes, up to a semicolon. The flag tells
whether the current name has a character yet. -/
def scanClassName (started : Bool) : List Char → Scanned
  | [] => none
  | ';' :: rest => if started then some ([';'], rest) else none
  | '/' :: rest => if started then (scanClassName false rest).after ['/'] else none
  | c :: rest => if isNameChar c then (scanClassName true rest).after [c] else none

/-- The type of a value: brackets for array dimensions and then a primitive or a class. -/
def scanValueType : List Char → Scanned
  | [] => none
  | '[' :: rest => (scanValueType rest).after ['[']
  | 'L' :: rest => (scanClassName false rest).after ['L']
  | c :: rest => if isPrimitive c then some ([c], rest) else none

/-- A return type: the type of a value or the type of no value. -/
def scanReturnType : List Char → Scanned
  | 'V' :: rest => some (['V'], rest)
  | text => scanValueType text

/-- The longest run of name characters, which must not be empty. -/
def scanName (text : List Char) : Scanned :=
  let name := text.takeWhile isNameChar
  if name.isEmpty then none else some (name, text.dropWhile isNameChar)

/-- The text behind a fixed text. -/
def scanText (fixed : String) (text : List Char) : Scanned :=
  (fixed.toList.isPrefixOf? text).map fun rest => (fixed.toList, rest)

/-- A member name: a constructor, a class initialiser or a simple name. -/
def scanMemberName (text : List Char) : Scanned :=
  (scanText "<init>" text).or ((scanText "<clinit>" text).or (scanName text))

/-- A scanner takes the whole of a text. -/
def takesAll (scan : List Char → Scanned) (text : String) : Bool :=
  match scan text.toList with
  | some (_, []) => true
  | _ => false

/-- An array has at most 255 dimensions. -/
def maxDimensions : Nat := 255

/-- A type descriptor is a return type of at most 255 dimensions. -/
def isTypeDescriptor (text : String) : Bool :=
  (text.toList.takeWhile (· == '[')).length ≤ maxDimensions && takesAll scanReturnType text

/-- A text that is a member name. -/
def isMemberName (text : String) : Bool :=
  takesAll scanMemberName text

/-- A malformed part of a key. -/
def malformed {α : Type} (part : KeyPart) (text : String) : Except Fault α :=
  fail (.dex (.malformedKey part text))

/-- Every text but a type descriptor is refused. -/
def checkTypeDescriptor (text : String) : Except Fault Unit :=
  if isTypeDescriptor text then .ok () else malformed .typeDescriptor text

/-- Every text but a member name is refused. -/
def checkMemberName (text : String) : Except Fault Unit :=
  if isMemberName text then .ok () else malformed .memberName text

/-- The letter of a type in a shorty: `L` for arrays and classes and the first letter for all
others. -/
def shortyChar (descriptor : String) : Char :=
  match descriptor.toList with
  | [] => 'V'
  | '[' :: _ => 'L'
  | c :: _ => c

end DexArsc.Dex
