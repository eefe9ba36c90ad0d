/-
Operands of instructions stay where they are when new indexes are stored in them. The walk over
the instructions reads no unit that holds an index.
-/

import DexArsc.Dex.Code
import DexArsc.Proofs.Bytes.Word

namespace DexArsc.Dex

namespace Operand

/-- The number of code units of an operand. -/
def size (operand : Operand) : Nat := if operand.wide then 2 else 1

/-- A code unit belongs to the operand. -/
def Covers (operand : Operand) (position : Nat) : Prop :=
  operand.position ≤ position ∧ position < operand.position + operand.size

/-- Operands that name items of a pool. -/
def isLinked (operand : Operand) : Bool := (ItemRef.ofOperand? operand.kind 0).isSome

/-- An operand within the units has an index. -/
theorem isSome_index? {units : Array UInt16} {operand : Operand}
    (inside : operand.position + operand.size ≤ units.size) : (operand.index? units).isSome := by
  unfold Operand.size at inside
  unfold Operand.index?
  by_cases wide : operand.wide = true
  · rw [if_pos wide] at inside
    rw [Array.getElem?_eq_getElem (by omega), Array.getElem?_eq_getElem (by omega)]
    rfl
  · rw [if_neg wide] at inside
    rw [Array.getElem?_eq_getElem (by omega)]
    cases units[operand.position + 1]? <;> simp [wide]

/-- An operand takes a unit. -/
theorem size_pos (operand : Operand) : 0 < operand.size := by
  unfold size
  split <;> decide

end Operand

/-- Every opcode with an operand has a unit behind its first one. -/
theorem units_of_operand (opcode : Nat) (small : opcode < 256) :
    (layoutOf opcode).operand.isSome → 2 ≤ (layoutOf opcode).format.units := by
  revert opcode
  decide +kernel

/-- The operands of an instruction lie behind its first unit and within it, one behind the
other. -/
theorem operandsAt_inside (unit : UInt16) (position : Nat) :
    (∀ operand ∈ operandsAt unit position, position < operand.position ∧
      operand.position + operand.size ≤ position + (layoutOfUnit unit).format.units) ∧
    (operandsAt unit position).Pairwise (fun a b => a.position + a.size ≤ b.position) ∧
    (Payload.ofUnit? unit ≠ none → operandsAt unit position = []) := by
  have long := units_of_operand (unit.toNat % 256) (Nat.mod_lt _ (by decide))
  unfold operandsAt
  change (layoutOfUnit unit).operand.isSome → _ ≤ (layoutOfUnit unit).format.units at long
  cases payload : Payload.ofUnit? unit with
  | some payload => simp
  | none =>
      generalize layoutOfUnit unit = layout at long ⊢
      obtain ⟨format, operand⟩ := layout
      cases operand with
      | none => simp
      | some kind =>
          have long := long rfl
          cases format <;> simp_all [Operand.size, InstructionFormat.units]

theorem payloadUnit_eq_ok {units : Array UInt16} {position value : Nat} :
    payloadUnit units position = .ok value ↔ ∃ unit, units[position]? = some unit ∧
      unit.toNat = value := by
  unfold payloadUnit
  cases units[position]? <;> simp

/-- The length of an instruction is that of its format. -/
theorem instructionUnits_of_plain {units : Array UInt16} {position : Nat} {unit : UInt16}
    (first : units[position]? = some unit) (plain : Payload.ofUnit? unit = none) :
    instructionUnits units position = .ok (layoutOfUnit unit).format.units := by
  have start : payloadUnit units position = .ok unit.toNat := payloadUnit_eq_ok.2 ⟨unit, first, rfl⟩
  rw [instructionUnits, start]
  dsimp only [bind, Except.bind]
  rw [UInt16.ofNat_toNat, plain]
  rfl

/-- The length of a payload depends on its own units only. -/
theorem Payload.units_congr {units other : Array UInt16} {position length : Nat} {payload : Payload}
    (measured : payload.units units position = .ok length)
    (same : ∀ place, position ≤ place → place < position + length → other[place]? = units[place]?) :
    payload.units other position = .ok length := by
  cases payload with
  | packedSwitch =>
      simp only [Payload.units, Except.bind_eq_ok, payloadUnit_eq_ok] at measured ⊢
      obtain ⟨count, ⟨unit, found, number⟩, total⟩ := measured
      cases total
      exact ⟨count, ⟨unit, by rw [same _ (by omega) (by omega), found], number⟩, rfl⟩
  | sparseSwitch =>
      simp only [Payload.units, Except.bind_eq_ok, payloadUnit_eq_ok] at measured ⊢
      obtain ⟨count, ⟨unit, found, number⟩, total⟩ := measured
      cases total
      exact ⟨count, ⟨unit, by rw [same _ (by omega) (by omega), found], number⟩, rfl⟩
  | arrayData =>
      simp only [Payload.units, Except.bind_eq_ok, payloadUnit_eq_ok] at measured ⊢
      obtain ⟨width, ⟨first, foundWidth, widthNumber⟩, low, ⟨second, foundLow, lowNumber⟩, high,
        ⟨third, foundHigh, highNumber⟩, total⟩ := measured
      cases total
      exact ⟨width, ⟨first, by rw [same _ (by omega) (by omega), foundWidth], widthNumber⟩, low,
        ⟨second, by rw [same _ (by omega) (by omega), foundLow], lowNumber⟩, high,
        ⟨third, by rw [same _ (by omega) (by omega), foundHigh], highNumber⟩, rfl⟩

theorem Payload.units_pos {units : Array UInt16} {position length : Nat} {payload : Payload}
    (measured : payload.units units position = .ok length) : 0 < length := by
  cases payload <;>
    simp only [Payload.units, Except.bind_eq_ok] at measured
  · obtain ⟨count, _, total⟩ := measured
    cases total
    omega
  · obtain ⟨count, _, total⟩ := measured
    cases total
    omega
  · obtain ⟨width, _, low, _, high, _, total⟩ := measured
    cases total
    omega

/-- The length of a payload as an instruction. -/
theorem instructionUnits_of_payload {units : Array UInt16} {position : Nat} {unit : UInt16}
    {payload : Payload} (first : units[position]? = some unit)
    (table : Payload.ofUnit? unit = some payload) :
    instructionUnits units position = payload.units units position := by
  have start : payloadUnit units position = .ok unit.toNat := payloadUnit_eq_ok.2 ⟨unit, first, rfl⟩
  rw [instructionUnits, start]
  dsimp only [bind, Except.bind]
  rw [UInt16.ofNat_toNat, table]

/-- An instruction has a unit, and its operands lie behind its first unit and within it. -/
theorem instruction_inside {units : Array UInt16} {position length : Nat} {unit : UInt16}
    (first : units[position]? = some unit) (measured : instructionUnits units position = .ok length) :
    0 < length ∧ ∀ operand ∈ operandsAt unit position, position < operand.position ∧
      operand.position + operand.size ≤ position + length := by
  obtain ⟨inside, _, none⟩ := operandsAt_inside unit position
  cases payload : Payload.ofUnit? unit with
  | some payload =>
      rw [instructionUnits_of_payload first payload] at measured
      rw [none (by simp [payload])]
      exact ⟨Payload.units_pos measured, List.forall_mem_nil _⟩
  | none =>
      rw [instructionUnits_of_plain first payload] at measured
      cases measured
      exact ⟨by cases (layoutOfUnit unit).format <;> decide, inside⟩

/-- One step of the walk: it ends behind the last unit, or it passes an instruction that lies within the
units. -/
theorem operandsFrom_succ_eq_ok {units : Array UInt16} {fuel position : Nat} {found result : List Operand} :
    operandsFrom units (fuel + 1) position found = .ok result ↔
      (units[position]? = none ∧ result = found.reverse) ∨ ∃ unit length, units[position]? = some unit ∧
        instructionUnits units position = .ok length ∧ position + length ≤ units.size ∧
        operandsFrom units fuel (position + length) ((operandsAt unit position).reverse ++ found) =
          .ok result := by
  rw [operandsFrom]
  cases units[position]? with
  | none => simp [eq_comm]
  | some unit =>
      simp only [Except.bind_eq_ok, reduceCtorEq, false_and, false_or, Option.some.injEq, exists_and_left,
        exists_eq_left']
      refine exists_congr fun length => and_congr_right fun _ => ?_
      by_cases overrun : units.size < position + length
      · rw [if_pos overrun]
        constructor
        · intro same
          cases same
        · intro ⟨inside, _⟩
          omega
      · rw [if_neg overrun]
        exact ⟨fun walk => ⟨by omega, walk⟩, And.right⟩

/-- The walk yields operands behind its start and within the units, one behind the other, and it
yields the same ones for units that differ only where these operands are. -/
theorem operandsFrom_eq_ok {units : Array UInt16} {fuel position : Nat} {found result : List Operand}
    (walk : operandsFrom units fuel position found = .ok result) :
    ∃ operands, result = found.reverse ++ operands ∧
      (∀ operand ∈ operands, position < operand.position ∧
        operand.position + operand.size ≤ units.size) ∧
      operands.Pairwise (fun a b => a.position + a.size ≤ b.position) ∧
      ∀ (other : Array UInt16) (before : List Operand), other.size = units.size →
        (∀ place, position ≤ place → (∀ operand ∈ operands, ¬operand.Covers place) →
          other[place]? = units[place]?) →
        operandsFrom other fuel position before = .ok (before.reverse ++ operands) := by
  induction fuel generalizing position found result with
  | zero =>
      cases walk
      exact ⟨[], by simp, by simp, List.Pairwise.nil, fun _ _ _ _ => by simp [operandsFrom]⟩
  | succ fuel ih =>
      rcases operandsFrom_succ_eq_ok.1 walk with ⟨first, rfl⟩ | ⟨unit, length, first, measured, fits, walk⟩
      · refine ⟨[], by simp, by simp, List.Pairwise.nil, fun other before size same => ?_⟩
        rw [operandsFrom_succ_eq_ok, same position (Nat.le_refl _) (by simp)]
        exact .inl ⟨first, by simp⟩
      obtain ⟨_, row, none⟩ := operandsAt_inside unit position
      obtain ⟨positive, inside⟩ := instruction_inside first measured
      obtain ⟨later, whole, behind, ordered, stable⟩ := ih walk
      refine ⟨operandsAt unit position ++ later, by simp [whole], ?_, ?_, ?_⟩
      · intro operand listed
        rcases List.mem_append.1 listed with here | there
        · exact ⟨(inside operand here).1, by have := (inside operand here).2; omega⟩
        · exact ⟨by have := (behind operand there).1; omega, (behind operand there).2⟩
      · rw [List.pairwise_append]
        refine ⟨row, ordered, fun a here b there => ?_⟩
        have := (inside a here).2
        have := (behind b there).1
        omega
      · intro other before size same
        have start : other[position]? = some unit := by
          rw [same position (Nat.le_refl _), first]
          rintro operand listed ⟨least, _⟩
          rcases List.mem_append.1 listed with here | there
          · have := (inside operand here).1
            omega
          · have := (behind operand there).1
            omega
        have remeasured : instructionUnits other position = .ok length := by
          cases payload : Payload.ofUnit? unit with
          | some payload =>
              rw [instructionUnits_of_payload first payload] at measured
              rw [instructionUnits_of_payload start payload]
              refine Payload.units_congr measured fun place least greatest =>
                same place least ?_
              rintro operand listed ⟨covered, _⟩
              rcases List.mem_append.1 listed with here | there
              · rw [none (by simp [payload])] at here
                cases here
              · have := (behind operand there).1
                omega
          | none =>
              rw [instructionUnits_of_plain first payload] at measured
              rw [instructionUnits_of_plain start payload, measured]
        have tail := stable other ((operandsAt unit position).reverse ++ before) size ?_
        · rw [operandsFrom_succ_eq_ok]
          exact .inr ⟨unit, length, start, remeasured, by omega, by rw [tail]; simp⟩
        · intro place least free
          refine same place (by omega) fun operand listed covers => ?_
          rcases List.mem_append.1 listed with here | there
          · have := (inside operand here).2
            have := covers.2
            omega
          · exact free operand there covers

end DexArsc.Dex
