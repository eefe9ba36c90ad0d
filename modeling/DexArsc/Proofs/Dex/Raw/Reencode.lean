/-
Raw sections that are encoded anew. The bytes outside the index slots move to the places that the shifts
tell, in ascending order, and a scan of the new bytes finds the same fixups there with the current indexes.
-/

import DexArsc.Proofs.Dex.Raw.Refresh
import DexArsc.Proofs.Dex.Raw.Scan

namespace DexArsc.Dex

/-- The current place of a position as an exact number. The last shift at or before it counts, and before the
first one a given distance. -/
def carried (distance : Int) (shifts : List Shift) (position : Nat) : Int :=
  position + ((shifts.filter (·.position.toNat ≤ position)).getLast?.map Shift.distance).getD distance

theorem carried_cons (distance : Int) (shift : Shift) (shifts : List Shift) (position : Nat) :
    carried distance (shift :: shifts) position =
      if shift.position.toNat ≤ position then carried shift.distance shifts position
      else carried distance shifts position := by
  unfold carried
  by_cases before : shift.position.toNat ≤ position
  · rw [if_pos before, List.filter_cons_of_pos (by simpa using before), List.getLast?_cons]
    cases (shifts.filter (·.position.toNat ≤ position)).getLast? <;> rfl
  · rw [if_neg before, List.filter_cons_of_neg (by simpa using before)]

/-- Before the first shift a position moves by the distance that is given. -/
theorem carried_of_lt {distance : Int} {shifts : List Shift} {position : Nat}
    (before : ∀ shift ∈ shifts, position < shift.position.toNat) : carried distance shifts position = position + distance := by
  have none : shifts.filter (·.position.toNat ≤ position) = [] := by
    rw [List.filter_eq_nil_iff]
    intro shift listed
    have := before shift listed
    simp
    omega
  rw [carried, none]
  rfl

/-- A position is its exact place in 32 bits. -/
theorem toNat_shifted (shifts : List Shift) (position : UInt32) :
    ((shifted shifts position).toNat : Int) = carried 0 shifts position.toNat % UInt32.size := by
  have size : (UInt32.size : Int) = 4294967296 := rfl
  have bound := position.toNat_lt
  unfold shifted carried
  simp only [UInt32.le_iff_toNat_le]
  cases (shifts.filter fun shift => decide (shift.position.toNat ≤ position.toNat)).getLast? with
  | none =>
      simp only [Option.map_none, Option.getD_none, size]
      omega
  | some shift =>
      simp only [Option.map_some, Option.getD_some, UInt32.toNat_ofNat', size]
      omega

/-- A fixup is found again, in the same kind of slot and for the same pool. An index slot holds the index that
the reference has now. -/
inductive Fixup.Renewed : Fixup → Fixup → Prop
  | offset (position place : Nat) (origin : UInt32) : Renewed (.offset position origin) (.offset place origin)
  | index {position place length width : Nat} {slot : RawSlot} {read : UInt32} {target other : ItemRef}
      (kind : other.operandKind = target.operandKind) (raw : other.raw = target.raw) :
      Renewed (.index position length slot read target) (.index place width slot target.raw other)

/-- A fixup whose reference may be linked and have another index. -/
inductive Fixup.Alike : Fixup → Fixup → Prop
  | offset (position : Nat) (origin : UInt32) : Alike (.offset position origin) (.offset position origin)
  | index {position length : Nat} {slot : RawSlot} {read : UInt32} {target other : ItemRef}
      (kind : other.operandKind = target.operandKind) :
      Alike (.index position length slot read target) (.index position length slot read other)

/-- A fixup whose reference has its current index. -/
def Fixup.refreshed (ids : IdSections) : Fixup → Fixup
  | .offset position origin => .offset position origin
  | .index position length slot read target => .index position length slot read (target.refresh ids)

theorem Fixup.Alike.refl (fixup : Fixup) : fixup.Alike fixup := by
  cases fixup with
  | offset position origin => exact .offset position origin
  | index position length slot read target => exact .index rfl

instance : Std.Refl Fixup.Alike := ⟨Fixup.Alike.refl⟩

theorem Fixup.Alike.trans {first second third : Fixup} (here : first.Alike second) (next : second.Alike third) :
    first.Alike third := by
  cases here with
  | offset position origin => exact next
  | index kind =>
      cases next with
      | index later => exact .index (later.trans kind)

/-- Fixups that differ in their references belong to the same bytes. -/
theorem Fixup.Alike.covers_iff {first second : Fixup} (alike : first.Alike second) (place : Nat) :
    (first.Covers place ↔ second.Covers place) ∧ (first.Splits place ↔ second.Splits place) := by
  cases alike <;> exact ⟨.rfl, .rfl⟩

/-- What is cut out up to the end of a piece. -/
theorem extract_piece {source : Bytes} {copied start : Nat} {bytes rest : List UInt8} (behind : copied ≤ start)
    (whole : source.toList.drop start = bytes ++ rest) :
    (source.extract copied (start + bytes.length)).toList = (source.extract copied start).toList ++ bytes ∧
      source.toList.drop (start + bytes.length) = rest := by
  constructor
  · rw [Array.toList_extract, Array.toList_extract, List.extract, List.extract,
      show start + bytes.length - copied = (start - copied) + bytes.length by omega, List.take_add,
      List.drop_drop, Nat.add_sub_cancel' behind, whole, List.take_left]
  · rw [← List.drop_drop, whole, List.drop_left]

namespace RawSection

/-- Pieces of a source whose slots are encoded anew. The bytes before them are written up to `copied` and have
the given size. -/
structure Respelled (source : Bytes) (start copied size : Nat) (pieces others : List RawPiece)
    (fixups : List Fixup) (out : List UInt8) (shifts : List Shift) : Prop where
  respells : List.Forall₂ RawPiece.Respells pieces others
  out_eq : out = (source.extract copied start).toList ++ RawPiece.flat others
  renewed : List.Forall₂ Fixup.Renewed fixups (RawPiece.fixupsFrom (size + (start - copied)) others)
  behind : ∀ shift ∈ shifts, start < shift.position.toNat
  places : ∀ place, start ≤ place → carried (size - copied) shifts place =
    (size + (start - copied) + RawPiece.carry pieces others (place - start) : Nat)

variable {ids : IdSections} {kind : SectionKind} {source : Bytes} {start copied size : Nat}
  {pieces others : List RawPiece} {fixups refreshed : List Fixup} {out : List UInt8} {shifts : List Shift}

theorem Respelled.nil (whole : source.toList.drop start = []) (behind : copied ≤ start) :
    Respelled source start copied size [] [] [] (source.extract copied source.size).toList [] where
  respells := .nil
  out_eq := by
    have ends : source.size ≤ start := by
      have length := congrArg List.length whole
      simp only [List.length_drop, Array.length_toList, List.length_nil] at length
      omega
    rw [RawPiece.flat_nil, List.append_nil, Array.toList_extract, Array.toList_extract, List.extract,
      List.extract, List.take_of_length_le (by simp), List.take_of_length_le (by simp; omega)]
  renewed := .nil
  behind := List.forall_mem_nil _
  places place least := by
    rw [carried_of_lt (List.forall_mem_nil _), RawPiece.carry]
    · omega
    · simp

/-- A piece that stays moves with the bytes before it. -/
theorem Respelled.keep {piece : RawPiece} {rest : List RawPiece} {own : List Fixup}
    (stays : RawPiece.Respells piece piece) (behind : copied ≤ start)
    (whole : source.toList.drop start = RawPiece.flat (piece :: rest))
    (found : List.Forall₂ Fixup.Renewed own (piece.fixups (size + (start - copied))))
    (later : Respelled source (start + piece.bytes.length) copied size rest others fixups out shifts) :
    Respelled source start copied size (piece :: rest) (piece :: others) (own ++ fixups) out shifts where
  respells := .cons stays later.respells
  out_eq := by
    rw [later.out_eq, (extract_piece behind whole).1, List.append_assoc]
    rfl
  renewed := by
    have place : size + (start + piece.bytes.length - copied) = size + (start - copied) + piece.bytes.length := by
      omega
    have tail := later.renewed
    rw [place] at tail
    exact List.rel_append found tail
  behind shift listed := Nat.lt_of_le_of_lt (Nat.le_add_right ..) (later.behind shift listed)
  places place least := by
    rw [RawPiece.carry]
    by_cases here : place < start + piece.bytes.length
    · rw [if_pos (by omega), carried_of_lt fun shift listed => Nat.lt_trans here (later.behind shift listed)]
      omega
    · rw [if_neg (by omega), later.places place (Nat.le_of_not_lt here), Nat.sub_add_eq]
      omega

/-- An index slot is encoded behind the bytes before it, and what follows moves by the change of its length. -/
theorem Respelled.index {slot : RawSlot} {target : UInt32 → ItemRef} {read : UInt32}
    {bytes written : List UInt8} {rest : List RawPiece} {ref : ItemRef} {here : List Shift}
    (encodes : slot.encode bytes read ref.raw = .ok written) (some : bytes ≠ []) (behind : copied ≤ start)
    (kind : (target ref.raw).operandKind = ref.operandKind) (raw : (target ref.raw).raw = ref.raw)
    (turns : here.map (fun shift => (shift.position.toNat, shift.distance)) =
      if written.length = bytes.length then [] else
        [(start + bytes.length, ((size + (start - copied) + written.length : Nat) : Int) - (start + bytes.length : Nat))])
    (later : Respelled source (start + bytes.length) (start + bytes.length)
      (size + (start - copied) + written.length) rest others fixups out shifts) :
    Respelled source start copied size (.index slot target read bytes :: rest)
      (.index slot target ref.raw written :: others) (.index start bytes.length slot read ref :: fixups)
      ((source.extract copied start).toList ++ written ++ out) (here ++ shifts) := by
  have length : 0 < bytes.length := List.length_pos_iff.2 some
  have past : ∀ shift ∈ here ++ shifts, start + bytes.length ≤ shift.position.toNat := by
    intro shift listed
    rcases List.mem_append.1 listed with first | next
    · have turn := List.mem_map_of_mem (f := fun shift : Shift => (shift.position.toNat, shift.distance)) first
      rw [turns] at turn
      split at turn
      · cases turn
      · exact Nat.le_of_eq (congrArg Prod.fst (List.mem_singleton.1 turn)).symm
    · exact Nat.le_of_lt (later.behind shift next)
  refine ⟨.cons (.index target encodes) later.respells, ?_, ?_, fun shift listed => ?_, fun place least => ?_⟩
  · have empty : (source.extract (start + bytes.length) (start + bytes.length)).toList = [] := by simp
    rw [later.out_eq, empty, List.nil_append, List.append_assoc]
    rfl
  · have tail := later.renewed
    rw [Nat.sub_self, Nat.add_zero] at tail
    exact .cons (.index kind raw) tail
  · have := past shift listed
    omega
  · change _ = ((size + (start - copied) + if place - start < bytes.length then place - start
      else written.length + RawPiece.carry rest others (place - start - bytes.length) : Nat) : Int)
    by_cases inside : place < start + bytes.length
    · rw [if_pos (by omega), carried_of_lt fun shift listed => Nat.lt_of_lt_of_le inside (past shift listed)]
      omega
    · have tail := later.places place (Nat.le_of_not_lt inside)
      rw [Nat.sub_self, Nat.add_zero, Nat.sub_add_eq] at tail
      rw [if_neg (by omega), ← Nat.add_assoc, ← tail]
      split at turns
      · rename_i same
        rw [List.map_eq_nil_iff.1 turns, List.nil_append, same]
        congr 1
        omega
      · obtain ⟨shift, none, turn⟩ := List.map_eq_singleton_iff.1 turns
        obtain ⟨position, distance⟩ := Prod.mk.inj turn
        rw [none, List.singleton_append, carried_cons, if_pos (by omega), distance]

/-- Encoding an index slot anew: the bytes before it, its own bytes and what follows. A slot of another length
adds a shift. -/
theorem reencode_index_eq_ok {position length : Nat} {slot : RawSlot} {read : UInt32} {target : ItemRef}
    {rest : List Fixup}
    (run : reencode ids kind source copied size (.index position length slot read target :: rest) =
      (refreshed, .ok (out, shifts))) : ∃ written here more bytes behind,
    slot.encode (source.extract position (position + length)).toList read (target.refresh ids).raw = .ok written ∧
    here.map (fun shift => (shift.position.toNat, shift.distance)) =
      (if written.length = length then [] else [(position + length,
        ((size + (source.extract copied position).toList.length + written.length : Nat) : Int) -
          (position + length : Nat))]) ∧
    reencode ids kind source (position + length)
      (size + (source.extract copied position).toList.length + written.length) rest = (more, .ok (bytes, behind)) ∧
    refreshed = .index position length slot read (target.refresh ids) :: more ∧
    out = (source.extract copied position).toList ++ written ++ bytes ∧ shifts = here ++ behind := by
  rw [reencode] at run
  simp only at run
  split at run
  · cases run
  rename_i written between here encoded
  rcases next : reencode ids kind source (position + length) between rest with ⟨more, result⟩
  simp only [next, Prod.mk.injEq] at run
  obtain ⟨rfl, joined⟩ := run
  rcases result with fault | ⟨bytes, behind⟩
  · cases joined
  simp only [Except.map, Except.ok.injEq, Prod.mk.injEq] at joined
  obtain ⟨rfl, rfl⟩ := joined
  obtain ⟨spelled, spell, encoded⟩ := Except.bind_eq_ok.1 encoded
  have encodes := Except.within_eq_ok.1 spell
  split at encoded
  · rename_i same
    cases encoded
    exact ⟨_, _, more, bytes, behind, encodes, by rw [if_pos same]; rfl, next, rfl, rfl, rfl⟩
  · rename_i other
    obtain ⟨word, narrow, encoded⟩ := Except.bind_eq_ok.1 encoded
    cases encoded
    exact ⟨_, _, more, bytes, behind, encodes,
      by rw [if_neg other, List.map_singleton, narrow32_eq_ok.1 narrow], next, rfl, rfl, rfl⟩

/-- Encoding the slots of pieces anew gives the same pieces with the current indexes in their slots, and the
shifts tell how far each of them moves. -/
theorem reencode_eq_ok (formed : ∀ piece ∈ pieces, piece.Formed)
    (alike : List.Forall₂ Fixup.Alike (RawPiece.fixupsFrom start pieces) fixups)
    (whole : source.toList.drop start = RawPiece.flat pieces) (behind : copied ≤ start)
    (run : reencode ids kind source copied size fixups = (refreshed, .ok (out, shifts))) :
    ∃ others, Respelled source start copied size pieces others refreshed out shifts := by
  induction pieces generalizing start copied size fixups refreshed out shifts with
  | nil =>
      cases alike
      cases run
      exact ⟨[], .nil whole behind⟩
  | cons piece rest ih =>
      obtain ⟨here, formedRest⟩ := List.forall_mem_cons.1 formed
      obtain ⟨cut, tail⟩ := extract_piece (Nat.le_refl start) whole
      cases piece with
      | kept bytes =>
          obtain ⟨others, later⟩ := ih formedRest alike tail (Nat.le_trans behind (Nat.le_add_right ..)) run
          exact ⟨_, .keep (.kept bytes) behind whole .nil later⟩
      | offset origin =>
          cases alike with
          | @cons _ _ _ more same alike =>
              cases same
              rw [reencode] at run
              rcases next : reencode ids kind source copied size more with ⟨others, result⟩
              simp only [next, Prod.mk.injEq] at run
              obtain ⟨rfl, rfl⟩ := run
              obtain ⟨others, later⟩ := ih formedRest alike tail (Nat.le_trans behind (Nat.le_add_right ..)) next
              exact ⟨_, .keep (.offset origin) behind whole (.cons (.offset ..) .nil) later⟩
      | index slot target read bytes =>
          obtain ⟨some, poolKind, makes⟩ := here
          change (source.extract start (start + bytes.length)).toList = _ ++ bytes at cut
          have length : (source.extract copied start).toList.length = start - copied := by
            have positive := List.length_pos_iff.2 some
            have total := congrArg List.length whole
            rw [RawPiece.flat_cons, List.length_append, List.length_drop, Array.length_toList] at total
            change source.size - start = bytes.length + _ at total
            rw [Array.length_toList, Array.size_extract]
            omega
          cases alike with
          | @cons _ _ _ more same alike =>
              cases same with
              | @index _ _ _ _ _ ref sameKind =>
                  obtain ⟨written, turn, _, _, _, encodes, turns, next, rfl, rfl, rfl⟩ := reencode_index_eq_ok run
                  rw [cut, show (source.extract start start).toList = [] by simp,
                    List.nil_append] at encodes
                  rw [length] at turns next
                  obtain ⟨others, later⟩ := ih formedRest alike tail (Nat.le_refl _) next
                  have pool : (target (ref.refresh ids).raw).operandKind = (ref.refresh ids).operandKind := by
                    rw [ItemRef.operandKind_refresh, sameKind, (makes _).1, (makes _).1]
                  exact ⟨_, .index encodes some behind pool (makes _).2 turns later⟩

/-- A section that was read, behind links, refreshes that succeed or fail, relocations and new places. -/
inductive Reached : RawSection → Prop
  | read {kind : SectionKind} {count origin : UInt32} {bytes : Bytes} {raw : RawSection}
      (run : RawSection.read kind count origin bytes = .ok raw) : Reached raw
  | link {raw : RawSection} (reached : Reached raw) (ids : IdSections) : Reached (raw.link ids)
  | refresh {raw final : RawSection} (reached : Reached raw) {ids : IdSections}
      (ends : (RawSection.refreshIndexes ids).Ends raw final) : Reached final
  | relocate {raw : RawSection} (reached : Reached raw) (relocator : Relocator) :
      Reached (raw.relocate relocator)
  | place {raw : RawSection} (reached : Reached raw) (offset : UInt32) : Reached { raw with offset }

/-- A link and a refresh keep the places and the slots of the fixups, however far a refresh gets. -/
theorem alike_reencode (fixups : List Fixup) :
    List.Forall₂ Fixup.Alike fixups (reencode ids kind source copied size fixups).1 := by
  induction fixups generalizing copied size with
  | nil => exact .nil
  | cons fixup rest ih =>
      cases fixup with
      | offset position origin => exact .cons (.offset ..) ih
      | index position length slot read target =>
          have here : Fixup.Alike (.index position length slot read target)
              (.index position length slot read (target.refresh ids)) :=
            .index (ItemRef.operandKind_refresh ids target)
          rw [reencode]
          simp only
          split
          · exact .cons here (List.forall₂_refl rest)
          · exact .cons here ih

/-- The fixups of a section in use are those that a scan of its source finds, but for their references. -/
theorem Reached.scanned {raw : RawSection} (reached : raw.Reached) : ∃ found,
    (FixupReader.items raw.kind raw.count.toNat).run raw.source = .ok found ∧
      List.Forall₂ Fixup.Alike found raw.fixups := by
  induction reached with
  | read run =>
      obtain ⟨found, scan, run⟩ := Except.bind_eq_ok.1 run
      cases run
      exact ⟨found, Except.within_eq_ok.1 scan, List.forall₂_refl found⟩
  | link reached ids ih =>
      obtain ⟨found, scan, alike⟩ := ih
      refine ⟨found, scan, List.forall₂_map_right_iff.2 (alike.imp fun _ fixup here => ?_)⟩
      cases fixup with
      | offset position origin => exact here
      | index position length slot read target => exact here.trans (.index (ItemRef.operandKind_link ids target))
  | @refresh raw final reached ids ends ih =>
      obtain ⟨found, scan, alike⟩ := ih
      obtain ⟨kind, count, _, _, source⟩ := refreshIndexes_frame ends
      have refreshed : final.fixups = (reencode ids raw.kind raw.source 0 0 raw.fixups).1 := by
        unfold Step.Ends at ends
        rw [refreshIndexes_apply] at ends
        generalize reencode ids raw.kind raw.source 0 0 raw.fixups = encoded at ends ⊢
        rcases encoded with ⟨fixups, _ | ⟨bytes, shifts⟩⟩ <;>
          rcases ends with ⟨_, same⟩ | ⟨_, same⟩ <;> cases same <;> rfl
      rw [kind, count, source, refreshed]
      exact ⟨found, scan, forall₂_comp alike (alike_reencode raw.fixups) fun _ _ _ => Fixup.Alike.trans⟩
  | relocate reached relocator ih => exact ih
  | place reached offset ih => exact ih

/-- The source of a section in use consists of pieces. Where the slots of these pieces hold other indexes, a
scan finds the same pieces. -/
theorem Reached.consists {raw : RawSection} (reached : raw.Reached) : ∃ pieces : List RawPiece,
    (∀ piece ∈ pieces, piece.Formed) ∧ raw.source.toList = RawPiece.flat pieces ∧
      List.Forall₂ Fixup.Alike (RawPiece.fixupsFrom 0 pieces) raw.fixups ∧
      ∀ (others : List RawPiece) (data : Bytes), List.Forall₂ RawPiece.Respells pieces others →
        data.toList = RawPiece.flat others →
        (FixupReader.items raw.kind raw.count.toNat).run data = .ok (RawPiece.fixupsFrom 0 others) := by
  obtain ⟨found, scan, alike⟩ := reached.scanned
  obtain ⟨stop, run⟩ := Reader.run_ok scan
  obtain ⟨step, mirrors⟩ := FixupReader.mirrors_items raw.kind raw.count.toNat
  obtain ⟨pieces, ⟨rest, whole⟩, rfl, rfl, formed, again⟩ := mirrors _ _ _ _ run
  have ends (position : Nat) (pieces : List RawPiece) :
      RawPiece.fixupsFrom position (pieces ++ [.kept rest]) = RawPiece.fixupsFrom position pieces := by
    rw [RawPiece.fixupsFrom_append]
    exact List.append_nil _
  refine ⟨pieces ++ [.kept rest], ?_, ?_, by rwa [ends], fun others data respells same => ?_⟩
  · exact List.forall_mem_append.2 ⟨formed, List.forall_mem_singleton.2 trivial⟩
  · rw [RawPiece.flat_append, ← List.drop_zero (l := raw.source.toList), ← whole]
    simp [RawPiece.bytes]
  · obtain ⟨others, last, rfl, front, stays⟩ := forall₂_append_left respells
    cases stays with
    | cons kept none =>
        cases none
        cases kept
        have stands : data.Stands 0 (RawPiece.flat others) := ⟨rest, by simp [same, RawPiece.bytes]⟩
        have rescan := (again others front).2 data 0 rfl stands
        rw [ends, Reader.run, EStateM.run, rescan]

/-- A refresh that succeeds refreshes every reference. -/
theorem fixups_of_reencode
    (run : reencode ids kind source copied size fixups = (refreshed, .ok (out, shifts))) :
    refreshed = fixups.map (Fixup.refreshed ids) := by
  induction fixups generalizing copied size refreshed out shifts with
  | nil =>
      cases run
      rfl
  | cons fixup rest ih =>
      cases fixup with
      | offset position origin =>
          rw [reencode] at run
          rcases next : reencode ids kind source copied size rest with ⟨more, result⟩
          simp only [next, Prod.mk.injEq] at run
          obtain ⟨rfl, rfl⟩ := run
          rw [ih next]
          rfl
      | index position length slot read target =>
          obtain ⟨_, _, _, _, _, _, _, next, rfl, _⟩ := reencode_index_eq_ok run
          rw [ih next]
          rfl

/-- The current place of a position, however far it is. -/
def placeOf (raw : RawSection) (position : Nat) : Nat :=
  (carried 0 raw.shifts position).toNat

/-- A fixup of a section as it is found in the current bytes: at its current place, in the same slot, for the
same pool and with the current index. An index that is still the one read has its bytes there. -/
inductive Refound (raw : RawSection) : Fixup → Fixup → Prop
  | offset (position : Nat) (origin : UInt32) :
      Refound raw (.offset position origin) (.offset (raw.placeOf position) origin)
  | index {position length width : Nat} {slot : RawSlot} {read : UInt32} {target other : ItemRef}
      (kind : other.operandKind = target.operandKind) (index : other.raw = target.raw)
      (unchanged : target.raw = read → raw.bytes.Stands (raw.placeOf position)
        (raw.source.extract position (position + length)).toList) :
      Refound raw (.index position length slot read target)
        (.index (raw.placeOf position) width slot target.raw other)

/-- The bytes of a section hold the current indexes, and all else that was read, in order. -/
structure Rewritten (raw : RawSection) : Prop where
  /-- A scan of the bytes finds the fixups again, each at its current place. -/
  scan : ∃ found, (FixupReader.items raw.kind raw.count.toNat).run raw.bytes = .ok found ∧
    List.Forall₂ raw.Refound raw.fixups found
  /-- A byte outside the index slots is copied to its current place. -/
  kept : ∀ place, place < raw.source.size → (∀ fixup ∈ raw.fixups, ¬fixup.Covers place) →
    raw.bytes[raw.placeOf place]? = raw.source[place]?
  /-- Bytes outside the index slots and the starts of slots keep their order. -/
  ascending : ∀ place later, (∀ fixup ∈ raw.fixups, ¬fixup.Splits place) → place < later →
    raw.placeOf place < raw.placeOf later
  inside : ∀ place, place < raw.source.size → (∀ fixup ∈ raw.fixups, ¬fixup.Splits place) →
    raw.placeOf place < raw.bytes.size
  /-- A position is the current place in 32 bits. -/
  position : ∀ position : UInt32,
    (raw.positionOf position).toNat = raw.placeOf position.toNat % UInt32.size

/-- A fixup that moves and is found again with the current index. -/
theorem Refound.of_moved {raw : RawSection} {scanned own found : Fixup} (alike : scanned.Alike own)
    (renewed : own.Renewed found) (moved : scanned.Moved raw.source raw.bytes raw.placeOf found) :
    raw.Refound own found := by
  cases alike with
  | offset position origin =>
      cases moved
      exact .offset position origin
  | index sameKind =>
      cases moved with
      | index same =>
          cases renewed with
          | index kind index => exact .index kind index same

/-- Pieces whose slots are encoded anew are the bytes of a section with the current indexes. -/
theorem Respelled.rewritten (raw : RawSection) {bytes : List UInt8}
    (respelled : Respelled raw.source 0 0 0 pieces others raw.fixups bytes raw.shifts)
    (formed : ∀ piece ∈ pieces, piece.Formed) (whole : raw.source.toList = RawPiece.flat pieces)
    (current : raw.bytes = bytes.toArray)
    (alike : List.Forall₂ Fixup.Alike (RawPiece.fixupsFrom 0 pieces) raw.fixups)
    (scan : (FixupReader.items raw.kind raw.count.toNat).run raw.bytes = .ok (RawPiece.fixupsFrom 0 others)) :
    raw.Rewritten := by
  have written : raw.bytes.toList = RawPiece.flat others := by simpa [current] using respelled.out_eq
  have exactly (position : Nat) : carried 0 raw.shifts position = (RawPiece.carry pieces others position : Nat) := by
    simpa using respelled.places position (Nat.zero_le _)
  have places : raw.placeOf = RawPiece.carry pieces others := by
    funext position
    rw [placeOf, exactly, Int.toNat_natCast]
  have size : raw.source.size = (RawPiece.flat pieces).length := by rw [← whole, Array.length_toList]
  have partner {fixup : Fixup} (listed : fixup ∈ RawPiece.fixupsFrom 0 pieces) :
      ∃ own ∈ raw.fixups, fixup.Alike own := forall₂_mem alike.flip listed
  have unsplit {place : Nat} (free : ∀ fixup ∈ raw.fixups, ¬fixup.Splits place) :
      ∀ fixup ∈ RawPiece.fixupsFrom 0 pieces, ¬fixup.Splits (0 + place) := fun fixup listed splits => by
    obtain ⟨own, inside, same⟩ := partner listed
    rw [Nat.zero_add] at splits
    exact free own inside ((same.covers_iff place).2.1 splits)
  refine ⟨⟨_, scan, ?_⟩, fun place inside free => ?_, fun place later free before => ?_,
    fun place inside free => ?_, fun position => ?_⟩
  · have old : raw.source.Stands 0 (RawPiece.flat pieces) := by rw [← whole]; exact List.prefix_refl _
    have new : raw.bytes.Stands 0 (RawPiece.flat others) := by rw [← written]; exact List.prefix_refl _
    have moved := RawPiece.moved_fixupsFrom respelled.respells formed old new
    simp only [Nat.zero_add, Nat.sub_zero, ← places] at moved
    exact forall₂_triangle alike respelled.renewed moved fun _ _ _ => Refound.of_moved
  · have uncovered : ∀ fixup ∈ RawPiece.fixupsFrom 0 pieces, ¬fixup.Covers (0 + place) :=
      fun fixup listed covers => by
        obtain ⟨own, inside, same⟩ := partner listed
        rw [Nat.zero_add] at covers
        exact free own inside ((same.covers_iff place).1.1 covers)
    rw [places, ← Array.getElem?_toList, ← Array.getElem?_toList, written, whole,
      RawPiece.getElem?_carry respelled.respells uncovered]
  · rw [places]
    exact RawPiece.carry_lt respelled.respells formed (unsplit free) before
  · have bound := RawPiece.carry_lt respelled.respells formed (unsplit free) (size ▸ inside)
    rw [places, ← Array.length_toList, written]
    rwa [RawPiece.carry_length respelled.respells] at bound
  · have number := toNat_shifted raw.shifts position
    rw [exactly, ← places] at number
    exact Int.ofNat.inj number

/-- A refresh of a section in use that succeeds gives bytes with the current indexes, and one that fails leaves
the bytes and the shifts. -/
theorem refreshIndexes_of_reached {raw : RawSection} (reached : raw.Reached) (ids : IdSections) :
    (∀ final, RawSection.refreshIndexes ids raw = .ok () final → final.kind = raw.kind ∧
      final.count = raw.count ∧ final.source = raw.source ∧
      final.fixups = raw.fixups.map (Fixup.refreshed ids) ∧ final.Rewritten) ∧
    ∀ fault final, RawSection.refreshIndexes ids raw = .error fault final →
      final.bytes = raw.bytes ∧ final.shifts = raw.shifts := by
  obtain ⟨pieces, formed, whole, alike, rescan⟩ := reached.consists
  rw [refreshIndexes_apply]
  rcases encoded : reencode ids raw.kind raw.source 0 0 raw.fixups with ⟨fixups, fault | ⟨bytes, shifts⟩⟩
  · refine ⟨fun final run => (by cases run), fun fault final run => ?_⟩
    cases run
    exact ⟨rfl, rfl⟩
  refine ⟨fun final run => ?_, fun fault final run => (by cases run)⟩
  cases run
  refine ⟨rfl, rfl, rfl, fixups_of_reencode encoded, ?_⟩
  obtain ⟨others, respelled⟩ := reencode_eq_ok formed alike whole (Nat.le_refl 0) encoded
  have kept : List.Forall₂ Fixup.Alike raw.fixups fixups := by
    have kept : List.Forall₂ Fixup.Alike raw.fixups (reencode ids raw.kind raw.source 0 0 raw.fixups).1 :=
      alike_reencode raw.fixups
    rwa [encoded] at kept
  have written : bytes.toArray.toList = RawPiece.flat others := by simpa using respelled.out_eq
  have both := forall₂_comp alike kept fun _ _ _ => Fixup.Alike.trans
  have scan := rescan others bytes.toArray respelled.respells written
  exact Respelled.rewritten { raw with fixups, bytes := bytes.toArray, shifts } respelled formed whole rfl both scan

/-- The name in an array of a string and a number is written with two bytes once its index needs them, and the
number moves. -/
theorem refreshIndexes_of_reached_wider :
    let strings : Section StringItem := (Section.push { kind := .stringId } { value := default }).2
    let ids (strings : Section StringItem) : IdSections := {
      strings
      types := { kind := .typeId }
      protos := { kind := .protoId }
      fields := { kind := .fieldId }
      methods := { kind := .methodId } }
    let many := { strings with cells := strings.cells.map fun cell => { cell with position := 0x1234 } }
    ∃ raw final, RawSection.read .encodedArray 1 0x70 #[2, 0x17, 0, 0x04, 7] = .ok raw ∧
      RawSection.refreshIndexes (ids many) (raw.link (ids strings)) = .ok () final ∧
      final.bytes = #[2, 0x37, 0x34, 0x12, 0x04, 7] ∧ final.Rewritten := by
  intro strings ids many
  have runs : (match RawSection.read .encodedArray 1 0x70 #[2, 0x17, 0, 0x04, 7] with
      | .error _ => none
      | .ok raw => match RawSection.refreshIndexes (ids many) (raw.link (ids strings)) with
        | .error _ _ => none
        | .ok _ final => some final.bytes) = some #[2, 0x37, 0x34, 0x12, 0x04, 7] := by
    decide +kernel
  split at runs
  · cases runs
  rename_i raw read
  split at runs
  · cases runs
  rename_i final run
  have reached : (raw.link (ids strings)).Reached := .link (.read read) _
  obtain ⟨_, _, _, _, rewritten⟩ := (refreshIndexes_of_reached reached (ids many)).1 final run
  exact ⟨raw, final, read, run, Option.some.inj runs, rewritten⟩

end RawSection
end DexArsc.Dex
