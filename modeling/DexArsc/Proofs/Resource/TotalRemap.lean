/-
Remaps of type chunks by total maps. When no string index overlaps a field from which the values are
found, or another string index, success, the number of string indexes and their places do not depend on
the map, and a second remap acts on the images of the first one.
-/

import DexArsc.Proofs.Resource.StringValue

namespace DexArsc.Resource

/-- The map that has an image for every string index. Its state lists the indexes for which it was
called, the last one first. -/
def StringMap.total (image : UInt32 → UInt32) : StringMap (List UInt32) := fun index => do
  modify (index :: ·)
  return image index

namespace TypeChunk

variable {chunk other : Bytes}

/-- The fields of an entry are found in the fields themselves. -/
theorem entryFields_congr {entry : Nat} (agrees : Agrees (entryFields chunk entry) chunk other) :
    entryFields other entry = entryFields chunk entry := by
  obtain ⟨front, back⟩ := agrees.entryHead
  have more := agrees.same
  unfold entryFields at more ⊢
  rw [front, back]
  cases sized : half chunk entry with
  | error fault => rfl
  | ok size =>
      cases flagged : half chunk (entry + 2) with
      | error fault => rfl
      | ok flags =>
          rw [sized, flagged] at more
          simp only at more ⊢
          by_cases compact : flags / 8 % 2 = 1
          · rw [if_pos compact, if_pos compact]
          · simp only [if_neg compact] at more ⊢
            by_cases complex : flags % 2 = 1
            · simp only [if_pos complex] at more ⊢
              have counts : word other (entry + 12) = word chunk (entry + 12) :=
                word_congr agrees.size fun place first last =>
                  more (entry + 12, 4) (by simp) place first last
              rw [counts, agrees.size]
            · rw [if_neg complex, if_neg complex]

/-- The fields of a chunk are found in the fields themselves. -/
theorem fields_congr (agrees : Agrees (fields chunk) chunk other) : fields other = fields chunk := by
  have rows : (entries chunk).flatMap (entryFields other) = (entries chunk).flatMap (entryFields chunk) :=
    List.flatMap_congr fun entry inside => entryFields_congr (agrees.part fun run within =>
      List.mem_append_right _ (List.mem_flatMap.2 ⟨entry, inside, within⟩))
  have header : half other 2 = half chunk 2 := half_congr_front agrees (by decide)
  have count : word other 12 = word chunk 12 := word_congr_front agrees (by decide)
  rw [fields, fields, header, count, offsetForm_congr agrees, entries_congr agrees, rows]

/-- String indexes that overlap nothing do so behind each change of them. -/
theorem Apart.congr (apart : Apart chunk) (agrees : Agrees (TypeChunk.fields chunk) chunk other) :
    Apart other where
  fields := by
    rw [slots_congr agrees, fields_congr agrees]
    exact apart.fields
  slots := slots_congr agrees ▸ apart.slots

theorem Complete.congr (complete : Complete chunk) (agrees : Agrees (fields chunk) chunk other) :
    Complete other where
  listed := by
    rw [word_congr_front agrees (by decide), entryOffsets_congr agrees]
    exact complete.listed
  entries entry inside := by
    rw [entries_congr agrees] at inside
    rw [entrySlots_congr agrees inside, agrees.size]
    exact complete.entries entry inside

end TypeChunk

variable {image : UInt32 → UInt32} {positions : List Nat} {initial final : Bytes × List UInt32}

end DexArsc.Resource
