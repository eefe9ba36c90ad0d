/-
The bytes of a line step. They take the whole step from every state of the machine, and one byte is
enough exactly for the steps of a special opcode.
-/

import DexArsc.Proofs.Dex.Debug.Sequence

namespace DexArsc.Dex

open Reader

namespace Special

/-- A special step is the number of the steps that it takes. -/
theorem number_eq (special : UInt8) :
    number (addresses special) (lines special) = special.toNat := by
  have address : (addresses special).toNat = special.toNat / 15 := by
    rw [addresses, UInt32.toNat_div, UInt8.toNat_toUInt32]
    rfl
  rw [number, address, lines]
  simp only [lineRange]
  omega

/-- A special step is encoded exactly for the address step and the line step that it is decoded
to. -/
theorem encode?_eq_some_iff {addressStep : UInt32} {lineStep : Int} {special : UInt8} :
    encode? addressStep lineStep = some special ↔
      special.toNat ≤ 245 ∧ addresses special = addressStep ∧ lines special = lineStep := by
  constructor
  · intro encoded
    obtain ⟨fits, same⟩ := Option.ite_none_right_eq_some.1 encoded
    obtain rfl := Option.some.inj same
    rw [Bool.and_eq_true, decide_eq_true_eq] at fits
    exact special_steps addressStep lineStep fits.1 fits.2
  · rintro ⟨opcode, rfl, rfl⟩
    have near : hasLineStep (lines special) = true := by
      rw [hasLineStep_iff, lines]
      simp only [lineRange, lineBase]
      omega
    have small : number (addresses special) (lines special) ≤ greatest := by
      rw [number_eq]
      exact Int.ofNat_le.2 opcode
    rw [encode?, near, Bool.true_and, if_pos (decide_eq_true small), number_eq, Int.toNat_natCast,
      UInt8.ofNat_toNat]

end Special

/-- One byte is written exactly for a step that a special opcode takes. -/
theorem lineStepBytes_eq_singleton_iff {addresses : UInt32} {lines : Int} {special : UInt8} :
    lineStepBytes addresses lines = [Special.firstOpcode + special] ↔
      Special.encode? addresses lines = some special := by
  have cancel (other : UInt8) : Special.firstOpcode + other = Special.firstOpcode + special ↔
      other = special := UInt8.add_right_inj Special.firstOpcode
  unfold lineStepBytes Special.encode?
  by_cases near : Special.hasLineStep lines = true
  · by_cases small : Special.number addresses lines ≤ Special.greatest
    · simp [near, small, ElementData.bytes, cancel]
    · simp [near, small, ElementData.bytes]
  · simp [near, ElementData.bytes]

/-- The bytes of a line step are at most one advance of the line, at most one of the address and one
special opcode. Read from any state, they lead to the whole step from there. They are one byte exactly
for the steps of a special opcode, which are those that it is decoded to. -/
theorem lineStepBytes_exact (addresses : UInt32) (lines : Int) :
    (∃ lineAdvance addressAdvance special,
      lineStepBytes addresses lines =
        (lineStep lineAdvance addressAdvance special).flatMap ElementData.bytes ∧
      (Special.firstOpcode + special).toNat = Special.firstOpcode.toNat + special.toNat ∧
      ∀ address line, ∃ elements : List DebugElement,
        elements.map DebugElement.data = lineStep lineAdvance addressAdvance special ∧
        elements.getLast? =
          some ⟨address + addresses, stepLine line lines, .lineEntry special⟩ ∧
        ∀ fuel rest later,
          Reads (readElements fuel (address + addresses) (stepLine line lines)) rest later →
          Reads (readElements (elements.length + fuel) address line)
            (lineStepBytes addresses lines ++ rest) (elements ++ later)) ∧
    (∀ special, lineStepBytes addresses lines = [Special.firstOpcode + special] ↔
      Special.encode? addresses lines = some special) ∧
    ∀ special, Special.encode? addresses lines = some special ↔ special.toNat ≤ 245 ∧
      Special.addresses special = addresses ∧ Special.lines special = lines := by
  refine ⟨?_, fun _ => lineStepBytes_eq_singleton_iff, fun _ => Special.encode?_eq_some_iff⟩
  obtain ⟨lineAdvance, addressAdvance, special, splits, same⟩ := exists_splits addresses lines
  have bytes := lineStepBytes_eq addresses lines
  rw [same] at bytes
  refine ⟨lineAdvance, addressAdvance, special, bytes, ?_, fun address line => ?_⟩
  · have opcode := splits.opcode
    rw [UInt8.toNat_add, Nat.mod_eq_of_lt]
    change 10 + special.toNat < 256
    omega
  · have reached := splits.reach_lineStep address line
    have bare : (lineStep lineAdvance addressAdvance special).map ElementData.bare =
        lineStep lineAdvance addressAdvance special := by
      cases lineAdvance <;> cases addressAdvance <;> rfl
    have data := map_data_replay (lineStep lineAdvance addressAdvance special) address line
    have length := congrArg List.length data
    rw [List.length_map] at length
    refine ⟨replay address line (lineStep lineAdvance addressAdvance special), data, ?_, ?_⟩
    · obtain ⟨advance, _, replayed⟩ :=
        replay_lineStep lineAdvance addressAdvance special address line
      rw [replayed, reached, List.getLast?_concat]
    · intro fuel rest later reads
      rw [bytes, length]
      have opcodes := hasOpcode_lineSteps addresses lines
      rw [same] at opcodes
      have whole := reads_readElements_append _ opcodes address line
        (by rwa [bare, reached] : Reads (readElements fuel _ _) rest later)
      rwa [bare] at whole

end DexArsc.Dex
