/-
The keys of dex items: prototypes, fields and methods by their descriptors and names. A key has
a written form, and reading a written form gives the key back.
-/

import DexArsc.Dex.Descriptor
import DexArsc.Dex.Pool

namespace DexArsc.Dex

/-- A prototype: a return type and parameter types. -/
structure Prototype where
  returnType : String
  parameters : List String
  deriving DecidableEq, Hashable, Inhabited

/-- A field: its class, its name and its type. -/
structure FieldKey where
  owner : String
  name : String
  type : String
  deriving DecidableEq, Hashable, Inhabited

/-- A method: its class, its name and its prototype. -/
structure MethodKey where
  owner : String
  name : String
  prototype : Prototype
  deriving DecidableEq, Hashable, Inhabited

/-- The order of texts by code points. -/
def compareTexts (a b : String) : Ordering :=
  compareOfLessAndEq a b

/-- The order of lists by their first difference. -/
def compareLists {α : Type} (compare : α → α → Ordering) : List α → List α → Ordering
  | [], [] => .eq
  | [], _ :: _ => .lt
  | _ :: _, [] => .gt
  | a :: as, b :: bs => (compare a b).then (compareLists compare as bs)

/-- The parameter types up to the closing parenthesis, and the text behind it. -/
def scanParameters : (fuel : Nat) → List Char → Option (List String × List Char)
  | _, ')' :: rest => some ([], rest)
  | 0, _ => none
  | fuel + 1, text => do
    let (type, rest) ← scanValueType text
    let (types, rest) ← scanParameters fuel rest
    return (String.ofList type :: types, rest)

/-- A prototype in its written form, and the text behind it. -/
def scanPrototype (text : List Char) : Option (Prototype × List Char) := do
  let (_, rest) ← scanText "(" text
  let (parameters, rest) ← scanParameters rest.length rest
  let (returnType, rest) ← scanReturnType rest
  return ({ returnType := String.ofList returnType, parameters }, rest)

namespace Prototype

/-- Every part of a prototype follows the grammar, and no parameter has the type of no value. -/
def check (key : Prototype) : Except Fault Unit := do
  checkTypeDescriptor key.returnType
  key.parameters.forM fun parameter => do
    checkTypeDescriptor parameter
    if parameter = "V" then malformed .parameterType parameter

/-- A prototype whose parts follow the grammar. -/
def make (returnType : String) (parameters : List String) : Except Fault Prototype := do
  let key : Prototype := { returnType, parameters }
  key.check
  return key

/-- The shorty: the letters of the return type and of the parameters. -/
def shorty (key : Prototype) : String :=
  String.ofList (shortyChar key.returnType :: key.parameters.map shortyChar)

/-- The written form. -/
def text (key : Prototype) : String :=
  "(" ++ String.join key.parameters ++ ")" ++ key.returnType

/-- The prototype with a written form. -/
def parse (text : String) : Except Fault Prototype := do
  match scanPrototype text.toList with
  | some (key, []) => key.check; return key
  | _ => malformed .prototype text

/-- The order by return type and then by parameters. -/
def compare (a b : Prototype) : Ordering :=
  (compareTexts a.returnType b.returnType).then
    (compareLists compareTexts a.parameters b.parameters)

end Prototype

namespace FieldKey

/-- Every part of a field key follows the grammar, and the field has a type of values. -/
def check (key : FieldKey) : Except Fault Unit := do
  checkTypeDescriptor key.owner
  checkMemberName key.name
  checkTypeDescriptor key.type
  if key.type = "V" then malformed .fieldType key.type

/-- A field key whose parts follow the grammar. -/
def make (owner name type : String) : Except Fault FieldKey := do
  let key : FieldKey := { owner, name, type }
  key.check
  return key

/-- The written form. -/
def text (key : FieldKey) : String :=
  key.owner ++ "->" ++ key.name ++ ":" ++ key.type

/-- A field key in its written form, and the text behind it. -/
def scan (text : List Char) : Option (FieldKey × List Char) := do
  let (owner, rest) ← scanValueType text
  let (_, rest) ← scanText "->" rest
  let (name, rest) ← scanMemberName rest
  let (_, rest) ← scanText ":" rest
  let (type, rest) ← scanValueType rest
  return ({ owner := String.ofList owner, name := String.ofList name, type := String.ofList type },
    rest)

/-- The field key with a written form. -/
def parse (text : String) : Except Fault FieldKey := do
  match scan text.toList with
  | some (key, []) => key.check; return key
  | _ => malformed .fieldReference text

/-- The order by class, name and type. -/
def compare (a b : FieldKey) : Ordering :=
  (compareTexts a.owner b.owner).then
    ((compareTexts a.name b.name).then (compareTexts a.type b.type))

end FieldKey

namespace MethodKey

/-- The class and the name of a method key follow the grammar. -/
def checkNames (key : MethodKey) : Except Fault Unit := do
  checkTypeDescriptor key.owner
  checkMemberName key.name

/-- A method key whose class and name follow the grammar. -/
def make (owner name : String) (prototype : Prototype) : Except Fault MethodKey := do
  let key : MethodKey := { owner, name, prototype }
  key.checkNames
  return key

/-- The written form. -/
def text (key : MethodKey) : String :=
  key.owner ++ "->" ++ key.name ++ key.prototype.text

/-- A method key in its written form, and the text behind it. -/
def scan (text : List Char) : Option (MethodKey × List Char) := do
  let (owner, rest) ← scanValueType text
  let (_, rest) ← scanText "->" rest
  let (name, rest) ← scanMemberName rest
  let (prototype, rest) ← scanPrototype rest
  return ({ owner := String.ofList owner, name := String.ofList name, prototype }, rest)

/-- The method key with a written form. -/
def parse (text : String) : Except Fault MethodKey := do
  match scan text.toList with
  | some (key, []) =>
    key.prototype.check
    key.checkNames
    return key
  | _ => malformed .methodReference text

/-- The order by class, name and prototype. -/
def compare (a b : MethodKey) : Ordering :=
  (compareTexts a.owner b.owner).then
    ((compareTexts a.name b.name).then (a.prototype.compare b.prototype))

end MethodKey

/-- The constructor form of a prototype. -/
def Prototype.quoted (key : Prototype) : String :=
  "ProtoKey \x7b return_type: " ++ Text.quoted key.returnType ++ ", parameters: " ++
    Text.bracketed (key.parameters.map Text.quoted) ++ " \x7d"

instance : KeyText Prototype := ⟨Prototype.quoted⟩

instance : KeyText FieldKey where
  text key := "FieldKey \x7b class: " ++ Text.quoted key.owner ++ ", name: " ++
    Text.quoted key.name ++ ", field_type: " ++ Text.quoted key.type ++ " \x7d"

instance : KeyText MethodKey where
  text key := "MethodKey \x7b class: " ++ Text.quoted key.owner ++ ", name: " ++
    Text.quoted key.name ++ ", proto: " ++ key.prototype.quoted ++ " \x7d"

end DexArsc.Dex
