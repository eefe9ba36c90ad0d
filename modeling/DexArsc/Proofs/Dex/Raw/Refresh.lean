/-
Sections kept as bytes whose slots receive the indexes and the places of the current layout. Encoding
them anew gives the same slots, and the same bytes once the offsets are relocated.
-/

import DexArsc.Dex.RawSection
import DexArsc.Proofs.Bytes.Word
import DexArsc.Proofs.Dex.Reference

namespace DexArsc.Dex.RawSection

/-- A refresh of the indexes encodes the source anew. -/
theorem refreshIndexes_apply (ids : IdSections) (raw : RawSection) :
    RawSection.refreshIndexes ids raw =
      match reencode ids raw.kind raw.source 0 0 raw.fixups with
      | (fixups, .ok (bytes, shifts)) => .ok () { raw with fixups, bytes := bytes.toArray, shifts }
      | (fixups, .error fault) => .error fault { raw with fixups } := by
  unfold refreshIndexes
  rw [Step.bind_ok (Step.get_apply _)]
  rcases reencode ids raw.kind raw.source 0 0 raw.fixups with ⟨fixups, _ | ⟨bytes, shifts⟩⟩ <;> rfl

/-- A refresh of the indexes changes neither the kind of a section nor where it was and is. -/
theorem refreshIndexes_frame {ids : IdSections} {raw final : RawSection}
    (ends : (RawSection.refreshIndexes ids).Ends raw final) :
    final.kind = raw.kind ∧ final.count = raw.count ∧ final.origin = raw.origin ∧
      final.offset = raw.offset ∧ final.source = raw.source := by
  unfold Step.Ends at ends
  rw [refreshIndexes_apply] at ends
  generalize reencode ids raw.kind raw.source 0 0 raw.fixups = encoded at ends
  rcases encoded with ⟨fixups, _ | ⟨bytes, shifts⟩⟩
  · rcases ends with ⟨_, same⟩ | ⟨_, same⟩ <;> cases same
    exact ⟨rfl, rfl, rfl, rfl, rfl⟩
  · rcases ends with ⟨_, same⟩ | ⟨_, same⟩ <;> cases same
    exact ⟨rfl, rfl, rfl, rfl, rfl⟩

/-- The words that a relocation puts into the offset slots. -/
def offsetWords (relocator : Relocator) (raw : RawSection) : List (Nat × UInt32) :=
  raw.fixups.filterMap fun
    | .offset position origin =>
      some ((raw.positionOf (UInt32.ofNat position)).toNat, relocator.relocate origin)
    | .index .. => none

/-- A relocation puts its words into the bytes and changes nothing else. -/
theorem relocate_eq (relocator : Relocator) (raw : RawSection) : raw.relocate relocator =
    { raw with bytes := Bytes.putWords (raw.offsetWords relocator) raw.bytes } := by
  unfold relocate offsetWords Bytes.putWords
  congr 1
  generalize raw.bytes = bytes
  induction raw.fixups generalizing bytes with
  | nil => rfl
  | cons fixup rest ih =>
      cases fixup with
      | offset position origin => exact ih _
      | index position length slot read target => exact ih _

@[simp] theorem size_relocate (relocator : Relocator) (raw : RawSection) :
    (raw.relocate relocator).bytes.size = raw.bytes.size := by
  rw [relocate_eq]
  exact Bytes.size_putWords ..

/-- Of two relocations the second one counts. -/
theorem relocate_relocate (first second : Relocator) (raw : RawSection) :
    (raw.relocate first).relocate second = raw.relocate second := by
  have places (relocator : Relocator) (raw : RawSection) : (raw.offsetWords relocator).map Prod.fst =
      raw.fixups.filterMap fun
        | .offset position _ => some (raw.positionOf (UInt32.ofNat position)).toNat
        | .index .. => none := by
    rw [offsetWords, List.map_filterMap]
    congr 1
    funext fixup
    cases fixup <;> rfl
  rw [relocate_eq second (raw.relocate first), relocate_eq first raw, relocate_eq second raw]
  congr 1
  exact Bytes.putWords_putWords ((places second _).trans (places first raw).symm) _

variable {ids other : IdSections} {kind : SectionKind} {source : Bytes} {copied size : Nat}

/-- Only the indexes of the items count for the bytes. -/
theorem reencode_congr (same : ids.SameIndexes other) (fixups : List Fixup) :
    reencode other kind source copied size fixups = reencode ids kind source copied size fixups := by
  induction fixups generalizing copied size with
  | nil => rfl
  | cons fixup rest ih =>
      cases fixup with
      | offset position origin => simp only [reencode, ih]
      | index position length slot read target => simp only [reencode, ItemRef.refresh_congr same, ih]

/-- Encoding refreshed slots gives the same slots and the same bytes once more. -/
theorem reencode_reencode {fixups refreshed : List Fixup} {encoded : List UInt8 × List Shift}
    (run : reencode ids kind source copied size fixups = (refreshed, .ok encoded)) :
    reencode ids kind source copied size refreshed = (refreshed, .ok encoded) := by
  induction fixups generalizing copied size refreshed encoded with
  | nil =>
      cases run
      rfl
  | cons fixup rest ih =>
      cases fixup with
      | offset position origin =>
          rw [reencode] at run
          rcases later : reencode ids kind source copied size rest with ⟨others, result⟩
          simp only [later, Prod.mk.injEq] at run
          obtain ⟨rfl, rfl⟩ := run
          rw [reencode, ih later]
      | index position length slot read target =>
          rw [reencode] at run
          simp only at run
          split at run
          · cases run
          · rename_i written between shifts here
            rcases later : reencode ids kind source (position + length) between rest with ⟨others, result⟩
            simp only [later, Prod.mk.injEq] at run
            obtain ⟨rfl, whole⟩ := run
            cases result with
            | error fault => cases whole
            | ok behind =>
                rw [reencode]
                simp only [ItemRef.refresh_refresh, here, ih later]
                exact congrArg (Prod.mk _) whole

/-- A section whose slots hold the current indexes, with the bytes that they are encoded to. -/
def Reencoded (ids : IdSections) (raw : RawSection) : Prop :=
  ∃ bytes, reencode ids raw.kind raw.source 0 0 raw.fixups = (raw.fixups, .ok (bytes, raw.shifts)) ∧
    ∀ relocator, { raw with bytes := bytes.toArray }.relocate relocator = raw.relocate relocator

variable {raw final : RawSection}

theorem reencoded_of_refresh (refresh : RawSection.refreshIndexes ids raw = .ok () final) :
    final.Reencoded ids := by
  rw [refreshIndexes_apply] at refresh
  rcases encoded : reencode ids raw.kind raw.source 0 0 raw.fixups with ⟨fixups, _ | ⟨bytes, shifts⟩⟩
  · rw [encoded] at refresh
    cases refresh
  · rw [encoded] at refresh
    cases refresh
    exact ⟨bytes, reencode_reencode encoded, fun _ => rfl⟩

theorem Reencoded.congr (reencoded : raw.Reencoded ids) (same : ids.SameIndexes other) :
    raw.Reencoded other := by
  obtain ⟨bytes, encoded, whole⟩ := reencoded
  exact ⟨bytes, (reencode_congr same _).trans encoded, whole⟩

/-- The place of the section does not count. -/
theorem Reencoded.withOffset (reencoded : raw.Reencoded ids) (offset : UInt32) :
    Reencoded ids { raw with offset } := by
  obtain ⟨bytes, encoded, whole⟩ := reencoded
  exact ⟨bytes, encoded, fun relocator =>
    congrArg (fun raw : RawSection => { raw with offset }) (whole relocator)⟩

/-- The offsets in the bytes do not count. -/
theorem Reencoded.relocate (reencoded : raw.Reencoded ids) (relocator : Relocator) :
    (raw.relocate relocator).Reencoded ids := by
  obtain ⟨bytes, encoded, whole⟩ := reencoded
  refine ⟨bytes, encoded, fun other => ?_⟩
  rw [relocate_relocate]
  exact whole other

/-- Another refresh gives bytes that are the same once they are relocated. -/
theorem Reencoded.refreshIndexes (reencoded : raw.Reencoded ids) : ∃ fresh,
    RawSection.refreshIndexes ids raw = .ok () fresh ∧
      ∀ relocator, fresh.relocate relocator = raw.relocate relocator := by
  obtain ⟨bytes, encoded, whole⟩ := reencoded
  refine ⟨{ raw with bytes := bytes.toArray }, ?_, whole⟩
  rw [refreshIndexes_apply, encoded]

end DexArsc.Dex.RawSection
