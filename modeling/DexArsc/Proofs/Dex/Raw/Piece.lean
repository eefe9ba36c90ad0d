/-
Raw bytes in pieces: bytes that stay, offset slots and index slots. When the index slots are encoded anew,
the pieces move, and each of them stands as far behind the start as the pieces before it are long.
-/

import DexArsc.Dex.RawSection
import DexArsc.Proofs.Bytes.Leb
import DexArsc.Proofs.Bytes.Word
import DexArsc.Proofs.Paired

namespace DexArsc.Dex

/-- A piece of raw bytes. An index slot knows the reference that it makes of its index. -/
inductive RawPiece
  | kept (bytes : List UInt8)
  | offset (origin : UInt32)
  | index (slot : RawSlot) (target : UInt32 → ItemRef) (read : UInt32) (bytes : List UInt8)

/-- The place belongs to an index slot. -/
def Fixup.Covers (place : Nat) : Fixup → Prop
  | .offset .. => False
  | .index position length .. => position ≤ place ∧ place < position + length

/-- The place belongs to an index slot and is not the first one of it. -/
def Fixup.Splits (place : Nat) : Fixup → Prop
  | .offset .. => False
  | .index position length .. => position < place ∧ place < position + length

/-- The place where a fixup starts. -/
def Fixup.start : Fixup → Nat
  | .offset position _ => position
  | .index position .. => position

/-- The references that are made of indexes are to one pool and have these indexes. -/
def ItemRef.Makes (target : UInt32 → ItemRef) : Prop :=
  ∃ kind, ∀ index, (target index).operandKind = kind ∧ (target index).raw = index

namespace RawPiece

/-- The bytes of a piece. -/
def bytes : RawPiece → List UInt8
  | kept bytes => bytes
  | offset origin => Bytes.ofWord32 origin
  | index _ _ _ bytes => bytes

/-- The fixup of a piece at a position. -/
def fixups (position : Nat) : RawPiece → List Fixup
  | kept _ => []
  | offset origin => [.offset position origin]
  | index slot target read bytes => [.index position bytes.length slot read (target read)]

/-- The bytes of pieces in a row. -/
def flat (pieces : List RawPiece) : List UInt8 := pieces.flatMap bytes

/-- The fixups of pieces in a row. -/
def fixupsFrom : (position : Nat) → List RawPiece → List Fixup
  | _, [] => []
  | position, piece :: rest => piece.fixups position ++ fixupsFrom (position + piece.bytes.length) rest

@[simp] theorem flat_nil : flat [] = [] := rfl

@[simp] theorem flat_cons (piece : RawPiece) (rest : List RawPiece) :
    flat (piece :: rest) = piece.bytes ++ flat rest := rfl

@[simp] theorem flat_append (first second : List RawPiece) : flat (first ++ second) = flat first ++ flat second :=
  List.flatMap_append

theorem fixupsFrom_append (position : Nat) (first second : List RawPiece) :
    fixupsFrom position (first ++ second) =
      fixupsFrom position first ++ fixupsFrom (position + (flat first).length) second := by
  induction first generalizing position with
  | nil => rfl
  | cons piece rest ih =>
      rw [List.cons_append, fixupsFrom, fixupsFrom, ih, flat_cons, List.length_append, List.append_assoc,
        Nat.add_assoc]

/-- The fixups of pieces start behind the pieces before them. -/
theorem le_start_of_mem {position : Nat} {pieces : List RawPiece} {fixup : Fixup}
    (listed : fixup ∈ fixupsFrom position pieces) : position ≤ fixup.start := by
  induction pieces generalizing position with
  | nil => cases listed
  | cons piece rest ih =>
      rcases List.mem_append.1 listed with here | later
      · cases piece with
        | kept bytes => cases here
        | offset origin =>
            obtain rfl := List.mem_singleton.1 here
            exact Nat.le_refl _
        | index slot target read bytes =>
            obtain rfl := List.mem_singleton.1 here
            exact Nat.le_refl _
      · exact Nat.le_trans (Nat.le_add_right ..) (ih later)

/-- An index slot has a byte, and references are made of its indexes. -/
def Formed : RawPiece → Prop
  | index _ target _ bytes => bytes ≠ [] ∧ ItemRef.Makes target
  | _ => True

/-- A piece with another index in its slot. All other pieces stay. -/
inductive Respells : RawPiece → RawPiece → Prop
  | kept (bytes : List UInt8) : Respells (kept bytes) (kept bytes)
  | offset (origin : UInt32) : Respells (offset origin) (offset origin)
  | index {slot : RawSlot} {read other : UInt32} {bytes written : List UInt8} (target : UInt32 → ItemRef)
      (encodes : slot.encode bytes read other = .ok written) :
      Respells (index slot target read bytes) (index slot target other written)

end RawPiece

/-- An index that stays keeps its bytes. -/
theorem RawSlot.encode_self (slot : RawSlot) (bytes : List UInt8) (index : UInt32) :
    slot.encode bytes index index = .ok bytes := by
  unfold encode
  exact if_pos rfl

/-- An index takes a byte in every slot. -/
theorem RawSlot.encode_ne_nil {slot : RawSlot} {bytes written : List UInt8} {read index : UInt32}
    (encodes : slot.encode bytes read index = .ok written) (some : bytes ≠ []) : written ≠ [] := by
  unfold encode at encodes
  split at encodes
  · cases encodes
    exact some
  cases slot with
  | half =>
      obtain ⟨word, _, same⟩ := Except.bind_eq_ok.1 encodes
      cases same
      exact List.cons_ne_nil _ _
  | word =>
      cases encodes
      exact List.cons_ne_nil _ _
  | leb =>
      cases encodes
      exact Leb.encode_ne_nil index
  | value =>
      cases bytes with
      | nil => exact absurd rfl some
      | cons header payload =>
          cases encodes
          exact List.cons_ne_nil _ _

namespace RawPiece

/-- The place of a byte behind the start once the pieces are others. -/
def carry : List RawPiece → List RawPiece → Nat → Nat
  | piece :: rest, other :: others, place =>
    if place < piece.bytes.length then place
    else other.bytes.length + carry rest others (place - piece.bytes.length)
  | _, _, place => place

variable {pieces others : List RawPiece} {start place : Nat}

/-- A byte outside the index slots is found at its new place. -/
theorem getElem?_carry (respells : List.Forall₂ Respells pieces others)
    (free : ∀ fixup ∈ fixupsFrom start pieces, ¬fixup.Covers (start + place)) :
    (flat others)[carry pieces others place]? = (flat pieces)[place]? := by
  induction respells generalizing start place with
  | nil => rfl
  | @cons piece other rest others respells _ ih =>
      rw [flat_cons, flat_cons, carry]
      by_cases here : place < piece.bytes.length
      · rw [if_pos here]
        cases respells with
        | kept bytes => rw [List.getElem?_append_left here, List.getElem?_append_left here]
        | offset origin => rw [List.getElem?_append_left here, List.getElem?_append_left here]
        | index target encodes =>
            exact absurd ⟨Nat.le_add_right .., Nat.add_lt_add_left here _⟩ (free _ List.mem_cons_self)
      · have tail := @ih (start + piece.bytes.length) (place - piece.bytes.length) fun fixup listed => by
          rw [Nat.add_assoc, Nat.add_sub_cancel' (Nat.le_of_not_lt here)]
          exact free fixup (List.mem_append_right _ listed)
        rw [if_neg here, List.getElem?_append_right (Nat.le_add_right ..), Nat.add_sub_cancel_left, tail,
          List.getElem?_append_right (Nat.le_of_not_lt here)]

/-- The end of the pieces is carried to the end of the others. -/
theorem carry_length (respells : List.Forall₂ Respells pieces others) :
    carry pieces others (flat pieces).length = (flat others).length := by
  induction respells with
  | nil => rfl
  | cons _ _ ih =>
      rw [carry, flat_cons, flat_cons, List.length_append, List.length_append, if_neg (by omega),
        Nat.add_sub_cancel_left, ih]

/-- A byte outside the index slots or at the start of one lies within the other piece as well. -/
theorem Respells.lt_length {piece other : RawPiece} (respells : Respells piece other) (formed : piece.Formed)
    (whole : ∀ fixup ∈ piece.fixups start, ¬fixup.Splits (start + place)) (here : place < piece.bytes.length) :
    place < other.bytes.length := by
  cases respells with
  | kept bytes => exact here
  | offset origin => exact here
  | index target encodes =>
      have first : place = 0 := Nat.eq_zero_of_not_pos fun inside =>
        whole _ List.mem_cons_self ⟨Nat.lt_add_of_pos_right inside, Nat.add_lt_add_left here _⟩
      rw [first]
      exact List.length_pos_iff.2 (RawSlot.encode_ne_nil encodes formed.1)

/-- A byte outside the index slots or at the start of one stays before every byte behind it. -/
theorem carry_lt (respells : List.Forall₂ Respells pieces others) (formed : ∀ piece ∈ pieces, piece.Formed)
    (whole : ∀ fixup ∈ fixupsFrom start pieces, ¬fixup.Splits (start + place)) {later : Nat}
    (before : place < later) : carry pieces others place < carry pieces others later := by
  induction respells generalizing start place later with
  | nil => exact before
  | @cons piece other rest others respells _ ih =>
      rw [carry, carry]
      by_cases here : place < piece.bytes.length
      · rw [if_pos here]
        by_cases there : later < piece.bytes.length
        · rwa [if_pos there]
        rw [if_neg there]
        have within := respells.lt_length (formed piece List.mem_cons_self)
          (fun fixup listed => whole fixup (List.mem_append_left _ listed)) here
        exact Nat.lt_of_lt_of_le within (Nat.le_add_right ..)
      · rw [if_neg here, if_neg (by omega)]
        have behind : ∀ fixup ∈ fixupsFrom (start + piece.bytes.length) rest,
            ¬fixup.Splits (start + piece.bytes.length + (place - piece.bytes.length)) := fun fixup listed => by
          rw [Nat.add_assoc, Nat.add_sub_cancel' (Nat.le_of_not_lt here)]
          exact whole fixup (List.mem_append_right _ listed)
        exact Nat.add_lt_add_left
          (ih (fun piece inside => formed piece (List.mem_cons_of_mem _ inside)) behind (by omega)) _

end RawPiece

/-- A fixup at another place of other data. A slot whose index stays has the same bytes there. -/
inductive Fixup.Moved (source data : Bytes) (place : Nat → Nat) : Fixup → Fixup → Prop
  | offset (position : Nat) (origin : UInt32) :
      Moved source data place (.offset position origin) (.offset (place position) origin)
  | index {position length width : Nat} {slot : RawSlot} {read index : UInt32} {target other : ItemRef}
      (same : index = read →
        data.Stands (place position) (source.extract position (position + length)).toList) :
      Moved source data place (.index position length slot read target)
        (.index (place position) width slot index other)

/-- Only the place of the fixup itself counts. -/
theorem Fixup.Moved.congr {source data : Bytes} {place other : Nat → Nat} {fixup partner : Fixup}
    (moved : fixup.Moved source data place partner) (same : other fixup.start = place fixup.start) :
    fixup.Moved source data other partner := by
  cases moved with
  | offset position origin =>
      change other position = place position at same
      rw [← same]
      exact .offset position origin
  | @index position length width slot read index target partner kept =>
      change other position = place position at same
      rw [← same] at kept ⊢
      exact .index kept

namespace RawPiece

variable {pieces others : List RawPiece} {start next : Nat} {source data : Bytes}

/-- The fixups of pieces with other indexes are the same ones at their new places. -/
theorem moved_fixupsFrom (respells : List.Forall₂ Respells pieces others)
    (formed : ∀ piece ∈ pieces, piece.Formed) (old : source.Stands start (flat pieces))
    (new : data.Stands next (flat others)) :
    List.Forall₂ (Fixup.Moved source data fun place => next + carry pieces others (place - start))
      (fixupsFrom start pieces) (fixupsFrom next others) := by
  induction respells generalizing start next with
  | nil => exact .nil
  | @cons piece other rest others respells _ ih =>
      obtain ⟨oldHere, oldLater⟩ := Bytes.Stands.append_iff.1 old
      obtain ⟨newHere, newLater⟩ := Bytes.Stands.append_iff.1 new
      have later (fixup : Fixup) (listed : fixup ∈ fixupsFrom (start + piece.bytes.length) rest) :
          next + carry (piece :: rest) (other :: others) (fixup.start - start) =
            next + other.bytes.length + carry rest others (fixup.start - (start + piece.bytes.length)) := by
        have behind := le_start_of_mem listed
        rw [carry, if_neg (by omega), Nat.sub_add_eq, Nat.add_assoc]
      have tail : List.Forall₂ (Fixup.Moved source data fun place =>
          next + carry (piece :: rest) (other :: others) (place - start)) _ _ :=
        forall₂_imp_mem
          (ih (fun piece inside => formed piece (List.mem_cons_of_mem _ inside)) oldLater newLater)
          fun fixup listed _ _ moved => moved.congr (later fixup listed)
      have first (some : 0 < piece.bytes.length) :
          next + carry (piece :: rest) (other :: others) (start - start) = next := by
        rw [Nat.sub_self, carry, if_pos some, Nat.add_zero]
      cases respells with
      | kept bytes => exact tail
      | offset origin =>
          refine .cons ?_ tail
          have here : Fixup.Moved source data (fun _ => next) (.offset start origin) (.offset next origin) :=
            .offset start origin
          exact here.congr (first (Nat.zero_lt_succ _))
      | @index slot read index bytes written target encodes =>
          refine .cons ?_ tail
          have here : Fixup.Moved source data (fun _ => next)
              (.index start bytes.length slot read (target read))
              (.index next written.length slot index (target index)) := .index fun same => by
            rw [same, RawSlot.encode_self, Except.ok.injEq] at encodes
            have cut : (source.extract start (start + bytes.length)).toList = bytes := oldHere.extract_eq
            rw [cut, encodes]
            exact newHere
          exact here.congr (first (List.length_pos_iff.2 (formed _ List.mem_cons_self).1))

end RawPiece
end DexArsc.Dex
