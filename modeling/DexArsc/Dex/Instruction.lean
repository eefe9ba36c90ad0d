/-
The layout of instructions: their length in 16-bit code units and the pool indexes inside them.
-/

import DexArsc.Fault

namespace DexArsc.Dex

/-- The formats of instructions. -/
inductive InstructionFormat
  | f10t | f10x | f11n | f11x | f12x
  | f20t | f21c | f21h | f21s | f21t | f22b | f22c | f22s | f22t | f22x | f23x
  | f30t | f31c | f31i | f31t | f32x | f35c | f3rc
  | f45cc | f4rcc
  | f51l
  deriving DecidableEq

namespace InstructionFormat

/-- The length of an instruction in code units. -/
def units : InstructionFormat → Nat
  | f10t | f10x | f11n | f11x | f12x => 1
  | f20t | f21c | f21h | f21s | f21t | f22b | f22c | f22s | f22t | f22x | f23x => 2
  | f30t | f31c | f31i | f31t | f32x | f35c | f3rc => 3
  | f45cc | f4rcc => 4
  | f51l => 5

/-- The name of a format: its length, its register count and its kind of operand. -/
def name : InstructionFormat → String
  | f10t => "10t"
  | f10x => "10x"
  | f11n => "11n"
  | f11x => "11x"
  | f12x => "12x"
  | f20t => "20t"
  | f21c => "21c"
  | f21h => "21h"
  | f21s => "21s"
  | f21t => "21t"
  | f22b => "22b"
  | f22c => "22c"
  | f22s => "22s"
  | f22t => "22t"
  | f22x => "22x"
  | f23x => "23x"
  | f30t => "30t"
  | f31c => "31c"
  | f31i => "31i"
  | f31t => "31t"
  | f32x => "32x"
  | f35c => "35c"
  | f3rc => "3rc"
  | f45cc => "45cc"
  | f4rcc => "4rcc"
  | f51l => "51l"

end InstructionFormat

/-- The format of an opcode and the pool that its operand indexes. -/
structure InstructionLayout where
  format : InstructionFormat
  operand : Option OperandKind := none
  deriving DecidableEq

/-- The first opcode of each run of opcodes with one layout, in ascending order. -/
def instructionRuns : List (Nat × InstructionLayout) := [
  (0x00, ⟨.f10x, none⟩), (0x01, ⟨.f12x, none⟩), (0x02, ⟨.f22x, none⟩), (0x03, ⟨.f32x, none⟩),
  (0x04, ⟨.f12x, none⟩), (0x05, ⟨.f22x, none⟩), (0x06, ⟨.f32x, none⟩), (0x07, ⟨.f12x, none⟩),
  (0x08, ⟨.f22x, none⟩), (0x09, ⟨.f32x, none⟩), (0x0a, ⟨.f11x, none⟩), (0x0e, ⟨.f10x, none⟩),
  (0x0f, ⟨.f11x, none⟩), (0x12, ⟨.f11n, none⟩), (0x13, ⟨.f21s, none⟩), (0x14, ⟨.f31i, none⟩),
  (0x15, ⟨.f21h, none⟩), (0x16, ⟨.f21s, none⟩), (0x17, ⟨.f31i, none⟩), (0x18, ⟨.f51l, none⟩),
  (0x19, ⟨.f21h, none⟩), (0x1a, ⟨.f21c, some .string⟩), (0x1b, ⟨.f31c, some .string⟩),
  (0x1c, ⟨.f21c, some .type⟩), (0x1d, ⟨.f11x, none⟩), (0x1f, ⟨.f21c, some .type⟩),
  (0x20, ⟨.f22c, some .type⟩), (0x21, ⟨.f12x, none⟩), (0x22, ⟨.f21c, some .type⟩),
  (0x23, ⟨.f22c, some .type⟩), (0x24, ⟨.f35c, some .type⟩), (0x25, ⟨.f3rc, some .type⟩),
  (0x26, ⟨.f31t, none⟩), (0x27, ⟨.f11x, none⟩), (0x28, ⟨.f10t, none⟩), (0x29, ⟨.f20t, none⟩),
  (0x2a, ⟨.f30t, none⟩), (0x2b, ⟨.f31t, none⟩), (0x2d, ⟨.f23x, none⟩), (0x32, ⟨.f22t, none⟩),
  (0x38, ⟨.f21t, none⟩), (0x3e, ⟨.f10x, none⟩), (0x44, ⟨.f23x, none⟩),
  (0x52, ⟨.f22c, some .field⟩), (0x60, ⟨.f21c, some .field⟩), (0x6e, ⟨.f35c, some .method⟩),
  (0x73, ⟨.f10x, none⟩), (0x74, ⟨.f3rc, some .method⟩), (0x79, ⟨.f10x, none⟩),
  (0x7b, ⟨.f12x, none⟩), (0x90, ⟨.f23x, none⟩), (0xb0, ⟨.f12x, none⟩), (0xd0, ⟨.f22s, none⟩),
  (0xd8, ⟨.f22b, none⟩), (0xe3, ⟨.f10x, none⟩), (0xfa, ⟨.f45cc, some .method⟩),
  (0xfb, ⟨.f4rcc, some .method⟩), (0xfc, ⟨.f35c, some .callSite⟩),
  (0xfd, ⟨.f3rc, some .callSite⟩), (0xfe, ⟨.f21c, some .methodHandle⟩),
  (0xff, ⟨.f21c, some .methodProto⟩)]

/-- The layout of an opcode: the last run that starts at or before it. -/
def layoutOf (opcode : Nat) : InstructionLayout :=
  instructionRuns.foldl (fun found run => if run.1 ≤ opcode then run.2 else found) ⟨.f10x, none⟩

/-- A pool index inside an instruction. -/
structure Operand where
  /-- The code unit that holds the index, or its low half. -/
  position : Nat
  /-- A wide index takes two code units. -/
  wide : Bool
  kind : OperandKind
  deriving DecidableEq

/-- The data tables that stand between instructions. -/
inductive Payload
  | packedSwitch
  | sparseSwitch
  | arrayData
  deriving DecidableEq

/-- The payload that a code unit starts. -/
def Payload.ofUnit? (unit : UInt16) : Option Payload :=
  if unit = 0x0100 then some .packedSwitch
  else if unit = 0x0200 then some .sparseSwitch
  else if unit = 0x0300 then some .arrayData
  else none

/-- The code unit of a payload header, which has to exist. -/
def payloadUnit (units : Array UInt16) (position : Nat) : Except Fault Nat :=
  match units[position]? with
  | some unit => .ok unit.toNat
  | none => fail (.dex (.payloadBeyond position units.size))

/-- The length of a payload in code units. -/
def Payload.units (units : Array UInt16) (position : Nat) : Payload → Except Fault Nat
  | packedSwitch => return (← payloadUnit units (position + 1)) * 2 + 4
  | sparseSwitch => return (← payloadUnit units (position + 1)) * 4 + 2
  | arrayData => do
    let width ← payloadUnit units (position + 1)
    let size := (← payloadUnit units (position + 2)) + (← payloadUnit units (position + 3)) * 0x10000
    return (size * width + 1) / 2 + 4

/-- The layout of the instruction that a code unit starts. -/
def layoutOfUnit (unit : UInt16) : InstructionLayout :=
  layoutOf (unit.toNat % 256)

/-- The length of the instruction or payload at a position, in code units. -/
def instructionUnits (units : Array UInt16) (position : Nat) : Except Fault Nat := do
  let first := UInt16.ofNat (← payloadUnit units position)
  match Payload.ofUnit? first with
  | some payload => payload.units units position
  | none => return (layoutOfUnit first).format.units

/-- The operands of the instruction at a position. -/
def operandsAt (unit : UInt16) (position : Nat) : List Operand :=
  match Payload.ofUnit? unit, layoutOfUnit unit with
  | none, { format, operand := some kind } =>
    match format with
    | .f31c => [⟨position + 1, true, kind⟩]
    | .f45cc | .f4rcc => [⟨position + 1, false, kind⟩, ⟨position + 3, false, .methodProto⟩]
    | _ => [⟨position + 1, false, kind⟩]
  | _, _ => []

/-- The operands from a position to the end, found by a walk of at most `fuel` instructions. They
come behind those that are already found, which are listed in reverse. -/
def operandsFrom (units : Array UInt16) :
    (fuel position : Nat) → (found : List Operand) → Except Fault (List Operand)
  | 0, _, found => .ok found.reverse
  | fuel + 1, position, found =>
    match units[position]? with
    | none => .ok found.reverse
    | some unit => do
      let length ← instructionUnits units position
      if units.size < position + length then
        fail (.dex (.instructionOverrun unit position units.size))
      operandsFrom units fuel (position + length) ((operandsAt unit position).reverse ++ found)

/-- The pool indexes of all instructions, in ascending positions. -/
def operands (units : Array UInt16) : Except Fault (List Operand) :=
  operandsFrom units units.size 0 []

end DexArsc.Dex
