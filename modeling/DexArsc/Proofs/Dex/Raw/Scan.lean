/-
A scan of raw bytes finds pieces. Where the same pieces stand with other indexes in their slots, the scan
finds them again: no size, type or padding that it reads on its way depends on an index.
-/

import DexArsc.Proofs.Dex.Raw.Piece
import Mathlib.Data.Nat.ModEq

namespace DexArsc

namespace Reader

variable {α β : Type}

/-- A reader yields a value because of the bytes that it passes, wherever they stand. -/
def Local (reader : Reader α) : Prop :=
  ∀ (data : Bytes) (start : Nat) (value : α) (stop : Cursor),
    reader { data, position := start } = .ok value stop → ∃ bytes, data.Stands start bytes ∧
      stop = { data, position := start + bytes.length } ∧ Reads reader bytes value

theorem local_bytesAs (what : String) (count : Nat) : Local (bytesAs what count) := by
  intro data start value stop run
  have length := length_of_bytesAs run
  obtain ⟨_, whole, rfl⟩ := bytesAs_eq_ok.1 run
  refine ⟨value, ?_, by rw [length], ?_⟩
  · rw [whole]
    exact List.take_prefix _ _
  · have reads := reads_bytesAs what value
    rwa [length] at reads

/-- The image of a value depends on no other bytes. -/
theorem Local.map {reader : Reader α} (here : Local reader) (change : α → β) :
    Local (reader >>= fun value => pure (change value)) := by
  intro data start value stop run
  obtain ⟨found, between, read, run⟩ := Step.bind_eq_ok.1 run
  cases run
  obtain ⟨bytes, stands, rfl, reads⟩ := here _ _ _ _ read
  exact ⟨bytes, stands, rfl, reads.bind_pure change⟩

theorem local_byte : Local byte := (local_bytesAs "u1" 1).map _

theorem local_word16 : Local word16 := fun _ _ word _ run =>
  have ⟨stands, stop⟩ := word16_eq_ok.1 run
  ⟨_, stands, stop, reads_word16 word⟩

theorem local_word32 : Local word32 := fun _ _ word _ run =>
  have ⟨stands, stop⟩ := word32_eq_ok.1 run
  ⟨_, stands, stop, reads_word32 word⟩

/-- A number that is read stands in the data with at least a byte. -/
theorem leb_eq_ok {data : Bytes} {start : Nat} {value : UInt32} {stop : Cursor}
    (run : leb { data, position := start } = .ok value stop) : ∃ bytes, bytes ≠ [] ∧ data.Stands start bytes ∧
      stop = { data, position := start + bytes.length } ∧ Reads leb bytes value := by
  rw [leb, lebWithin, decoded, Step.bind_ok (Step.get_apply _)] at run
  obtain ⟨⟨number, count⟩, between, lift, rest⟩ := Step.bind_eq_ok.1 run
  obtain ⟨decodes, rfl⟩ := Step.monadLift_eq_ok.1 lift
  cases rest
  obtain ⟨bytes, first, rfl, some, few, again⟩ := Leb.decodeGroups_eq_ok decodes
  refine ⟨bytes, some, first.trans ?_, by rw [Nat.zero_add], reads_decoded some few fun rest => ?_⟩
  · rw [Cursor.window, Array.toList_extract]
    exact List.take_prefix _ _
  · rw [Nat.zero_add] at again
    exact again rest

theorem local_leb : Local leb := fun _ _ _ _ run =>
  have ⟨bytes, _, stands, stop, reads⟩ := leb_eq_ok run
  ⟨bytes, stands, stop, reads⟩

end Reader

namespace Dex

namespace FixupReader

/-- A scan finds the same pieces with other indexes in their slots where they stand. A scan that passes
padding does so at positions that are equal up to multiples of a step. -/
def Refinds (step : Nat) (scan : FixupReader) (start : Nat) (pieces : List RawPiece) : Prop :=
  ∀ others, List.Forall₂ RawPiece.Respells pieces others →
    (RawPiece.flat others).length ≡ (RawPiece.flat pieces).length [MOD step] ∧
    ∀ (data : Bytes) (next : Nat), next ≡ start [MOD step] → data.Stands next (RawPiece.flat others) →
      scan { data, position := next } =
        .ok (RawPiece.fixupsFrom next others) { data, position := next + (RawPiece.flat others).length }

/-- What a run of a scan finds, it finds in pieces that the scan finds again. -/
def Mirrored (step : Nat) (scan : FixupReader) (data : Bytes) (start : Nat) (found : List Fixup)
    (stop : Cursor) : Prop :=
  ∃ pieces : List RawPiece, data.Stands start (RawPiece.flat pieces) ∧
    found = RawPiece.fixupsFrom start pieces ∧
    stop = { data, position := start + (RawPiece.flat pieces).length } ∧
    (∀ piece ∈ pieces, piece.Formed) ∧ scan.Refinds step start pieces

/-- Whatever a scan finds, it finds in pieces that it finds again. -/
def Mirrors (step : Nat) (scan : FixupReader) : Prop :=
  ∀ (data : Bytes) (start : Nat) (found : List Fixup) (stop : Cursor),
    scan { data, position := start } = .ok found stop → scan.Mirrored step data start found stop

variable {step : Nat} {α : Type} {first second : FixupReader}

/-- A scan that finds nothing and passes nothing. -/
theorem mirrors_nil : Mirrors step (pure []) := by
  intro data start found stop run
  cases run
  refine ⟨[], Bytes.Stands.nil, rfl, rfl, List.forall_mem_nil _, fun others respells => ?_⟩
  cases respells
  exact ⟨rfl, fun _ _ _ _ => rfl⟩

/-- Two scans one behind the other. -/
def also (first second : FixupReader) : FixupReader :=
  return (← first) ++ (← second)

theorem Mirrors.also (here : first.Mirrors step) (later : second.Mirrors step) :
    (also first second).Mirrors step := by
  intro data start found stop run
  obtain ⟨front, between, read, run⟩ := Step.bind_eq_ok.1 run
  obtain ⟨back, last, reread, run⟩ := Step.bind_eq_ok.1 run
  cases run
  obtain ⟨pieces, stands, rfl, rfl, formed, again⟩ := here _ _ _ _ read
  obtain ⟨more, standsMore, rfl, rfl, formedMore, againMore⟩ := later _ _ _ _ reread
  refine ⟨pieces ++ more, ?_, (RawPiece.fixupsFrom_append ..).symm, ?_, ?_, fun others respells => ?_⟩
  · rw [RawPiece.flat_append]
    exact Bytes.Stands.append_iff.2 ⟨stands, standsMore⟩
  · rw [RawPiece.flat_append, List.length_append, Nat.add_assoc]
  · exact List.forall_mem_append.2 ⟨formed, formedMore⟩
  · obtain ⟨others, rest, rfl, respellsHere, respellsLater⟩ := forall₂_append_left respells
    obtain ⟨near, rescan⟩ := again others respellsHere
    obtain ⟨nearMore, rescanMore⟩ := againMore rest respellsLater
    simp only [RawPiece.flat_append, List.length_append]
    refine ⟨near.add nearMore, fun data next aligned stands => ?_⟩
    obtain ⟨front, back⟩ := Bytes.Stands.append_iff.1 stands
    rw [FixupReader.also, Step.bind_ok (rescan data next aligned front),
      Step.bind_ok (rescanMore data _ (aligned.add near) back), RawPiece.fixupsFrom_append, Nat.add_assoc]
    rfl

/-- A scan that passes some bytes and goes on with another scan, wherever these bytes stand. -/
theorem Mirrors.behind {scan : FixupReader} {data : Bytes} {start : Nat} {found : List Fixup} {stop : Cursor}
    {bytes : List UInt8} (later : first.Mirrors step) (stands : data.Stands start bytes)
    (same : ∀ (data : Bytes) (position : Nat), data.Stands position bytes →
      scan { data, position } = first { data, position := position + bytes.length })
    (run : scan { data, position := start } = .ok found stop) : scan.Mirrored step data start found stop := by
  rw [same data start stands] at run
  obtain ⟨pieces, standsMore, rfl, rfl, formed, again⟩ := later _ _ _ _ run
  refine ⟨.kept bytes :: pieces, Bytes.Stands.append_iff.2 ⟨stands, standsMore⟩, rfl, ?_,
    List.forall_mem_cons.2 ⟨trivial, formed⟩, fun others respells => ?_⟩
  · rw [RawPiece.flat_cons, List.length_append, ← Nat.add_assoc]
    rfl
  · cases respells with
    | cons kept respells =>
        cases kept
        obtain ⟨near, rescan⟩ := again _ respells
        simp only [RawPiece.flat_cons, List.length_append]
        refine ⟨near.add_left _, fun data next aligned stands => ?_⟩
        obtain ⟨front, back⟩ := Bytes.Stands.append_iff.1 stands
        rw [same data next front, rescan data _ (aligned.add_right _) back, ← Nat.add_assoc]
        rfl

/-- A scan behind a value that does not depend on the indexes. -/
theorem Mirrors.after {reader : Reader α} (here : reader.Local) {next : α → FixupReader}
    (later : ∀ value, (next value).Mirrors step) : FixupReader.Mirrors step (reader >>= next) := by
  intro data start found stop run
  obtain ⟨value, between, read, _⟩ := Step.bind_eq_ok.1 run
  obtain ⟨bytes, stands, _, reads⟩ := here _ _ _ _ read
  exact (later value).behind stands (fun data position stands => Step.bind_ok (reads data position stands)) run

/-- A scan behind padding. -/
theorem Mirrors.align {alignment : Nat} (later : first.Mirrors alignment) :
    FixupReader.Mirrors alignment (Reader.align alignment >>= fun _ => first) := by
  have padded (data : Bytes) (position : Nat) :
      (Reader.align alignment >>= fun _ => first) { data, position } =
        (Reader.bytesAs "alignment padding" (padding alignment position) >>= fun _ => first) { data, position } := by
    simp only [Reader.align, bind_assoc, pure_bind]
    rfl
  intro data start found stop run
  rw [padded] at run
  obtain ⟨pieces, stands, same, place, formed, again⟩ :=
    Mirrors.after (Reader.local_bytesAs _ _) (fun _ => later) _ _ _ _ run
  refine ⟨pieces, stands, same, place, formed, fun others respells => ?_⟩
  obtain ⟨near, rescan⟩ := again others respells
  refine ⟨near, fun data next aligned stands => ?_⟩
  have pad : padding alignment next = padding alignment start := by
    unfold padding
    rw [aligned]
  rw [padded, pad]
  exact rescan data next aligned stands

/-- A repeated scan is one scan in front of the others. -/
theorem times_succ (scan : FixupReader) (count : Nat) :
    scan.times (count + 1) = FixupReader.also scan (scan.times count) := by
  have onto (count : Nat) (done : List (List Fixup)) :
      Reader.replicateOnto scan count done = (done.reverse ++ ·) <$> Reader.replicate scan count := by
    induction count generalizing done with
    | zero => simp [Reader.replicate, Reader.replicateOnto]
    | succ count ih =>
        have next (found : List Fixup) (done : List (List Fixup)) := ih (found :: done)
        change (scan >>= fun found => Reader.replicateOnto scan count (found :: done)) =
          (done.reverse ++ ·) <$> (scan >>= fun found => Reader.replicateOnto scan count [found])
        simp only [next, map_bind, Functor.map_map, List.reverse_cons, List.reverse_nil, List.nil_append,
          List.append_assoc]
  have first (found : List Fixup) := onto count [found]
  change (scan >>= fun found => Reader.replicateOnto scan count [found]) >>= (fun all => pure all.flatten) = _
  simp only [first, FixupReader.also, times, bind_assoc, bind_map_left, pure_bind, List.reverse_cons,
    List.reverse_nil, List.nil_append, List.singleton_append, List.flatten_cons]

theorem Mirrors.times (here : first.Mirrors step) (count : Nat) : (first.times count).Mirrors step := by
  induction count with
  | zero => exact mirrors_nil
  | succ count ih =>
      rw [times_succ]
      exact here.also ih

/-- A reader of an index finds it in some bytes, and finds another index where they are encoded with it. -/
def Spells (step : Nat) (slot : RawSlot) (read : Reader UInt32) : Prop :=
  ∀ (data : Bytes) (start : Nat) (index : UInt32) (stop : Cursor),
    read { data, position := start } = .ok index stop → ∃ bytes, bytes ≠ [] ∧ data.Stands start bytes ∧
      stop = { data, position := start + bytes.length } ∧
      ∀ other written, slot.encode bytes index other = .ok written →
        read.Reads written other ∧ written.length ≡ bytes.length [MOD step]

theorem spells_half : Spells 1 .half (return (← Reader.word16).toUInt32) := by
  intro data start index stop run
  obtain ⟨word, between, read, run⟩ := Step.bind_eq_ok.1 run
  obtain ⟨stands, rfl⟩ := Reader.word16_eq_ok.1 read
  cases run
  refine ⟨_, List.cons_ne_nil _ _, stands, rfl, fun other written encodes => ⟨?_, Nat.modEq_one⟩⟩
  by_cases same : other = word.toUInt32
  · rw [same, RawSlot.encode_self] at encodes
    cases encodes
    rw [same]
    exact (Reader.reads_word16 word).bind_pure _
  · unfold RawSlot.encode at encodes
    rw [if_neg same] at encodes
    obtain ⟨half, narrow, same⟩ := Except.bind_eq_ok.1 encodes
    cases same
    have number : half.toUInt32 = other := by
      apply UInt32.toNat_inj.1
      rw [UInt16.toNat_toUInt32, narrow16_eq_ok.1 narrow]
    rw [← number]
    exact (Reader.reads_word16 half).bind_pure _

theorem spells_word : Spells step .word Reader.word32 := by
  intro data start index stop run
  obtain ⟨stands, rfl⟩ := Reader.word32_eq_ok.1 run
  refine ⟨_, List.cons_ne_nil _ _, stands, rfl, fun other written encodes => ?_⟩
  have same : written = Bytes.ofWord32 other := by
    unfold RawSlot.encode at encodes
    split at encodes
    · rename_i same
      cases encodes
      rw [same]
      rfl
    · cases encodes
      rfl
  rw [same]
  exact ⟨Reader.reads_word32 other, rfl⟩

theorem spells_leb : Spells 1 .leb Reader.leb := by
  intro data start index stop run
  obtain ⟨bytes, some, stands, rfl, reads⟩ := Reader.leb_eq_ok run
  refine ⟨bytes, some, stands, rfl, fun other written encodes => ⟨?_, Nat.modEq_one⟩⟩
  unfold RawSlot.encode at encodes
  split at encodes
  · rename_i same
    cases encodes
    rw [same]
    exact reads
  · cases encodes
    exact Reader.reads_leb other

theorem Spells.mirrors {slot : RawSlot} {read : Reader UInt32} (spells : Spells step slot read)
    {target : UInt32 → ItemRef} (makes : ItemRef.Makes target) : (FixupReader.slot slot read target).Mirrors step := by
  have runs {data : Bytes} {start length : Nat} {index : UInt32}
      (run : read { data, position := start } = .ok index { data, position := start + length }) :
      FixupReader.slot slot read target { data, position := start } =
        .ok [.index start length slot index (target index)] { data, position := start + length } := by
    rw [FixupReader.slot, Step.bind_ok (show Reader.position _ = .ok start _ from rfl), Step.bind_ok run]
    change EStateM.Result.ok [Fixup.index start (start + length - start) slot index (target index)] _ = _
    rw [Nat.add_sub_cancel_left]
  intro data start found stop run
  obtain ⟨_, _, here, rest⟩ := Step.bind_eq_ok.1 run
  cases here
  obtain ⟨index, between, read, _⟩ := Step.bind_eq_ok.1 rest
  obtain ⟨bytes, some, stands, rfl, again⟩ := spells _ _ _ _ read
  rw [runs read] at run
  cases run
  refine ⟨[.index slot target index bytes], by simpa [RawPiece.bytes] using stands, rfl,
    by simp [RawPiece.bytes],
    by simpa using ⟨some, makes⟩, fun others respells => ?_⟩
  cases respells with
  | cons same none =>
      cases none
      cases same with
      | @index _ _ other _ written _ encodes =>
          obtain ⟨reads, near⟩ := again other written encodes
          simp only [RawPiece.flat_cons, RawPiece.flat_nil, List.append_nil, RawPiece.bytes]
          exact ⟨near, fun data next _ stands => runs (reads data next stands)⟩

/-- A scan that finds what a piece without an index holds, wherever this piece stands. -/
theorem mirrored_of_fixed {scan : FixupReader} {data : Bytes} {start : Nat} (piece : RawPiece)
    (formed : piece.Formed) (fixed : ∀ other, piece.Respells other → other = piece)
    (runs : ∀ (data : Bytes) (position : Nat), data.Stands position piece.bytes →
      scan { data, position } = .ok (piece.fixups position) { data, position := position + piece.bytes.length })
    (stands : data.Stands start piece.bytes) :
    scan.Mirrored step data start (piece.fixups start) { data, position := start + piece.bytes.length } := by
  have single : RawPiece.flat [piece] = piece.bytes := List.append_nil _
  have alone (position : Nat) : RawPiece.fixupsFrom position [piece] = piece.fixups position := List.append_nil _
  refine ⟨[piece], by rwa [single], (alone start).symm, by rw [single], by simpa using formed, fun others respells => ?_⟩
  cases respells with
  | cons same none =>
      cases none
      rw [fixed _ same, single]
      exact ⟨rfl, fun data next _ stands => by rw [alone, runs data next stands]⟩

/-- An offset slot that holds 0 is none. -/
theorem mirrors_offset : FixupReader.offset.Mirrors step := by
  have runs (origin : UInt32) (data : Bytes) (position : Nat) (stands : data.Stands position (Bytes.ofWord32 origin)) :
      FixupReader.offset { data, position } =
        .ok (if origin = 0 then [] else [.offset position origin]) { data, position := position + 4 } := by
    rw [FixupReader.offset, Step.bind_ok (show Reader.position _ = .ok position _ from rfl),
      Step.bind_ok (Reader.word32_eq_ok.2 ⟨stands, rfl⟩)]
    rfl
  intro data start found stop run
  obtain ⟨_, _, here, rest⟩ := Step.bind_eq_ok.1 run
  cases here
  obtain ⟨origin, between, read, _⟩ := Step.bind_eq_ok.1 rest
  obtain ⟨stands, rfl⟩ := Reader.word32_eq_ok.1 read
  have runs := runs origin
  rw [runs data start stands] at run
  cases run
  by_cases zero : origin = 0
  · simp only [if_pos zero] at runs ⊢
    exact mirrored_of_fixed (.kept (Bytes.ofWord32 origin)) trivial (fun _ same => by cases same; rfl) runs stands
  · simp only [if_neg zero] at runs ⊢
    exact mirrored_of_fixed (.offset origin) trivial (fun _ same => by cases same; rfl) runs stands

/-- The values of an array. -/
theorem Mirrors.arrayOf {value : FixupReader} (here : value.Mirrors step) : (FixupReader.arrayOf value).Mirrors step :=
  .after Reader.local_leb fun count => here.times count.toNat

theorem makes_string : ItemRef.Makes string := ⟨.string, fun _ => ⟨rfl, rfl⟩⟩

theorem makes_type : ItemRef.Makes type := ⟨.type, fun _ => ⟨rfl, rfl⟩⟩

theorem makes_proto : ItemRef.Makes proto := ⟨.methodProto, fun _ => ⟨rfl, rfl⟩⟩

theorem makes_field : ItemRef.Makes field := ⟨.field, fun _ => ⟨rfl, rfl⟩⟩

theorem makes_method : ItemRef.Makes method := ⟨.method, fun _ => ⟨rfl, rfl⟩⟩

/-- An annotation with named values. -/
theorem Mirrors.annotationOf {value : FixupReader} (here : value.Mirrors 1) :
    (FixupReader.annotationOf value).Mirrors 1 := by
  have whole : FixupReader.annotationOf value = FixupReader.also (leb type)
      (Reader.leb >>= fun count => (FixupReader.also (leb string) value).times count.toNat) := by
    simp only [FixupReader.annotationOf, FixupReader.also, bind_assoc]
  rw [whole]
  exact (spells_leb.mirrors makes_type).also
    (.after Reader.local_leb fun count => ((spells_leb.mirrors makes_string).also here).times count.toNat)

/-- The forms of values that hold an index make references. -/
theorem makes_of_valueForm? {type : Nat} {target : UInt32 → ItemRef}
    (form : valueForm? type = some (.index target)) : ItemRef.Makes target := by
  unfold valueForm? at form
  split at form <;> cases form
  · exact makes_proto
  · exact makes_string
  · exact makes_type
  · exact makes_field
  · exact makes_field
  · exact makes_method

/-- What a value without an index of its own reads behind its header. -/
def valueTail? (levels header : Nat) : Option FixupReader :=
  match valueForm? (header % 32) with
  | some .plain => some (Reader.bytes (header / 32 + 1) >>= fun _ => pure [])
  | some .empty => some (pure [])
  | some .array => some (FixupReader.arrayOf (value levels))
  | some .annotated => some (FixupReader.annotationOf (value levels))
  | _ => none

/-- The header of a value is read first. -/
theorem value_succ {levels : Nat} {data : Bytes} {position : Nat} {header : UInt8} {tail : FixupReader}
    (behind : valueTail? levels header.toNat = some tail) (stands : data.Stands position [header]) :
    value (levels + 1) { data, position } = tail { data, position := position + 1 } := by
  rw [value, Step.bind_ok (show Reader.position _ = .ok position _ from rfl),
    Step.bind_ok (Reader.byte_eq_ok.2 ⟨stands, rfl⟩)]
  unfold valueTail? at behind
  split at behind
  all_goals
    rename_i form
    cases behind
    try simp only [form]
    try rfl

theorem mirrors_valueTail {levels header : Nat} {tail : FixupReader} (mirrors : (value levels).Mirrors 1)
    (behind : valueTail? levels header = some tail) : tail.Mirrors 1 := by
  unfold valueTail? at behind
  split at behind <;> cases behind
  · exact .after (Reader.local_bytesAs _ _) fun _ => mirrors_nil
  · exact mirrors_nil
  · exact mirrors.arrayOf
  · exact mirrors.annotationOf

/-- The value of an index has a header and one to four bytes. -/
theorem value_index {levels : Nat} {data : Bytes} {position : Nat} {header : UInt8} {payload : List UInt8}
    {target : UInt32 → ItemRef} (form : valueForm? (header.toNat % 32) = some (.index target))
    (width : payload.length = header.toNat / 32 + 1) (few : payload.length ≤ 4)
    (stands : data.Stands position (header :: payload)) : value (levels + 1) { data, position } =
      .ok [.index position (payload.length + 1) .value (UInt32.ofNat (Bytes.littleEndian payload))
        (target (UInt32.ofNat (Bytes.littleEndian payload)))]
        { data, position := position + (payload.length + 1) } := by
  obtain ⟨front, back⟩ : data.Stands position [header] ∧ data.Stands (position + 1) payload :=
    Bytes.Stands.append_iff.1 stands
  rw [value, Step.bind_ok (show Reader.position _ = .ok position _ from rfl),
    Step.bind_ok (Reader.byte_eq_ok.2 ⟨front, rfl⟩)]
  simp only [form, ← width]
  rw [if_neg (by omega)]
  have read := Reader.reads_bytes payload data (position + 1) back
  rw [Step.bind_ok read, Nat.add_comm payload.length, ← Nat.add_assoc]
  rfl

/-- A value that is read has an index of its own, in one to four bytes, or it has none. -/
theorem value_eq_ok {levels : Nat} {data : Bytes} {position : Nat} {found : List Fixup} {stop : Cursor}
    (run : value (levels + 1) { data, position } = .ok found stop) :
    ∃ header, data.Stands position [header] ∧ ((∃ tail, valueTail? levels header.toNat = some tail) ∨
      ∃ target payload, valueForm? (header.toNat % 32) = some (.index target) ∧
        payload.length = header.toNat / 32 + 1 ∧ payload.length ≤ 4 ∧ data.Stands position (header :: payload)) := by
  rw [value, Step.bind_ok (show Reader.position _ = .ok position _ from rfl)] at run
  obtain ⟨header, between, read, run⟩ := Step.bind_eq_ok.1 run
  obtain ⟨stands, rfl⟩ := Reader.byte_eq_ok.1 read
  refine ⟨header, stands, ?_⟩
  unfold valueTail?
  cases form : valueForm? (header.toNat % 32) with
  | none =>
      rw [form] at run
      cases run
  | some found =>
      cases found with
      | plain => exact .inl ⟨_, rfl⟩
      | empty => exact .inl ⟨_, rfl⟩
      | array => exact .inl ⟨_, rfl⟩
      | annotated => exact .inl ⟨_, rfl⟩
      | index target =>
          simp only [form] at run
          obtain ⟨few, run⟩ := Step.guard_eq_ok.1 run
          obtain ⟨payload, between, read, _⟩ := Step.bind_eq_ok.1 run
          have width := Reader.length_of_bytesAs read
          obtain ⟨_, whole, _⟩ := Reader.bytesAs_eq_ok.1 read
          refine .inr ⟨target, payload, rfl, width, by omega, ?_⟩
          change data.Stands position ([header] ++ payload)
          refine Bytes.Stands.append_iff.2 ⟨stands, ?_⟩
          rw [whole]
          exact List.take_prefix _ _

theorem indexBytes_bounds (index : UInt32) : 0 < indexBytes index ∧ indexBytes index ≤ 4 := by
  unfold indexBytes
  split
  · decide
  split
  · decide
  split <;> decide

/-- An index fits the bytes that it needs. -/
theorem lt_of_indexBytes_le {index : UInt32} {size : Nat} (enough : indexBytes index ≤ size) :
    index.toNat < 256 ^ size := by
  have bound := index.toNat_lt
  have own : index.toNat < 256 ^ indexBytes index := by
    unfold indexBytes
    split
    · omega
    split
    · omega
    split <;> omega
  exact Nat.lt_of_lt_of_le own (Nat.pow_le_pow_right (by decide) enough)

/-- An index is told by the bytes that it needs. -/
theorem littleEndian_take_ofWord32 {index : UInt32} {size : Nat} (enough : indexBytes index ≤ size)
    (few : size ≤ 4) : Bytes.littleEndian ((Bytes.ofWord32 index).take size) = index.toNat := by
  have fits := lt_of_indexBytes_le enough
  have bound := index.toNat_lt
  have sizes : size = 0 ∨ size = 1 ∨ size = 2 ∨ size = 3 ∨ size = 4 := by omega
  rcases sizes with rfl | rfl | rfl | rfl | rfl <;>
    simp [Bytes.ofWord32, Bytes.littleEndian, Nat.shiftRight_eq_div_pow] at fits ⊢ <;> omega

/-- The header of a value has its width above its type. -/
theorem toNat_valueHeader {size : Nat} (few : size ≤ 4) (header : UInt8) :
    (UInt8.ofNat (size - 1) <<< 5 ||| header &&& 0x1f).toNat = (size - 1) * 32 + header.toNat % 32 := by
  have width : (UInt8.ofNat (size - 1)).toNat = size - 1 := by
    rw [UInt8.toNat_ofNat']
    omega
  have type : (header &&& 0x1f).toNat = header.toNat % 32 := by
    rw [UInt8.toNat_and]
    exact Nat.and_two_pow_sub_one_eq_mod header.toNat 5
  rw [UInt8.toNat_or, UInt8.toNat_shiftLeft, width, type]
  simp only [UInt8.reduceToNat, Nat.reduceMod, Nat.reducePow]
  rw [Nat.mod_eq_of_lt (by rw [Nat.shiftLeft_eq]; omega),
    ← Nat.shiftLeft_add_eq_or_of_lt (by omega : header.toNat % 32 < 2 ^ 5), Nat.shiftLeft_eq]

/-- The bytes of a value hold another index once it is encoded in them. -/
theorem encode_value {header : UInt8} {payload written : List UInt8} {read other : UInt32}
    (width : payload.length = header.toNat / 32 + 1) (few : payload.length ≤ 4)
    (holds : UInt32.ofNat (Bytes.littleEndian payload) = read)
    (encodes : RawSlot.value.encode (header :: payload) read other = .ok written) :
    ∃ (first : UInt8) (rest : List UInt8), written = first :: rest ∧ first.toNat % 32 = header.toNat % 32 ∧
      rest.length = first.toNat / 32 + 1 ∧ rest.length ≤ 4 ∧
      UInt32.ofNat (Bytes.littleEndian rest) = other := by
  unfold RawSlot.encode at encodes
  split at encodes
  · rename_i same
    cases encodes
    exact ⟨header, payload, rfl, rfl, width, few, holds.trans same.symm⟩
  · cases encodes
    obtain ⟨positive, most⟩ := indexBytes_bounds other
    have size : max (indexBytes other) payload.length ≤ 4 := Nat.max_le.2 ⟨most, few⟩
    have enough : indexBytes other ≤ max (indexBytes other) payload.length := Nat.le_max_left ..
    have number := toNat_valueHeader size header
    have length : ((Bytes.ofWord32 other).take (max (indexBytes other) payload.length)).length =
        max (indexBytes other) payload.length := by
      rw [List.length_take, Bytes.length_ofWord32]
      omega
    refine ⟨_, _, rfl, ?_, ?_, by rw [length]; exact size, ?_⟩
    · rw [number]
      omega
    · rw [number, length]
      omega
    · rw [littleEndian_take_ofWord32 enough size, UInt32.ofNat_toNat]

/-- Values at any depth. -/
theorem mirrors_value (levels : Nat) : (value levels).Mirrors 1 := by
  induction levels with
  | zero =>
      intro data start found stop run
      cases run
  | succ levels ih =>
      intro data start found stop run
      obtain ⟨header, stands, ⟨tail, behind⟩ | ⟨target, payload, form, width, few, whole⟩⟩ := value_eq_ok run
      · exact (mirrors_valueTail ih behind).behind stands (fun _ _ stands => value_succ behind stands) run
      · rw [value_index form width few whole] at run
        cases run
        refine ⟨[.index .value target (UInt32.ofNat (Bytes.littleEndian payload)) (header :: payload)],
          by simpa [RawPiece.bytes] using whole, rfl, by simp [RawPiece.bytes],
          by simpa using ⟨List.cons_ne_nil _ _, makes_of_valueForm? form⟩, fun others respells => ?_⟩
        cases respells with
        | cons same none =>
            cases none
            cases same with
            | @index _ _ other _ written _ encodes =>
                obtain ⟨first, rest, rfl, type, width, few, rfl⟩ := encode_value width few rfl encodes
                refine ⟨Nat.modEq_one, fun data next _ stands => ?_⟩
                simp only [RawPiece.flat_cons, RawPiece.flat_nil, List.append_nil, RawPiece.bytes] at stands ⊢
                exact value_index (by rwa [type]) width few stands

theorem mirrors_methodHandle : methodHandle.Mirrors 1 := by
  have whole : methodHandle = (Reader.word16 >>= fun type => Reader.word16 >>= fun _ =>
      FixupReader.also (half (if type ≤ 3 then field else method)) (Reader.word16 >>= fun _ => pure [])) := by
    simp only [methodHandle, FixupReader.also, bind_assoc, pure_bind, List.append_nil]
  rw [whole]
  refine .after Reader.local_word16 fun type => .after Reader.local_word16 fun _ =>
    Mirrors.also (spells_half.mirrors ?_) (.after Reader.local_word16 fun _ => mirrors_nil)
  split
  · exact makes_field
  · exact makes_method

theorem mirrors_offsetList : offsetList.Mirrors 4 :=
  .align (.after Reader.local_word32 fun count => mirrors_offset.times count.toNat)

theorem mirrors_annotationsDirectory : annotationsDirectory.Mirrors 4 := by
  have whole : annotationsDirectory = (Reader.align 4 >>= fun _ => FixupReader.also offset
      (Reader.word32 >>= fun fields => Reader.word32 >>= fun methods => Reader.word32 >>= fun parameters =>
        FixupReader.also ((FixupReader.also (word field) offset).times fields.toNat)
          ((FixupReader.also (word method) offset).times (methods.toNat + parameters.toNat)))) := by
    simp only [annotationsDirectory, FixupReader.also, bind_assoc, pure_bind, List.append_assoc]
  have member {target : UInt32 → ItemRef} (makes : ItemRef.Makes target) :
      (FixupReader.also (word target) offset).Mirrors 4 := (spells_word.mirrors makes).also mirrors_offset
  rw [whole]
  exact .align (mirrors_offset.also (.after Reader.local_word32 fun fields => .after Reader.local_word32
    fun methods => .after Reader.local_word32 fun parameters =>
      ((member makes_field).times _).also ((member makes_method).times _)))

/-- Whatever the items of a section are, their fixups are found again with other indexes. -/
theorem mirrors_items (kind : SectionKind) (count : Nat) : ∃ step, (items kind count).Mirrors step := by
  have array : FixupReader.array.Mirrors 1 := (mirrors_value _).arrayOf
  have annotation : Mirrors 1 (Reader.byte >>= fun _ => annotationItem) :=
    .after Reader.local_byte fun _ => (mirrors_value _).annotationOf
  unfold items
  split
  · exact ⟨4, mirrors_offsetList.times count⟩
  · exact ⟨4, mirrors_offsetList.times count⟩
  · exact ⟨4, mirrors_annotationsDirectory.times count⟩
  · exact ⟨1, annotation.times count⟩
  · exact ⟨1, array.times count⟩
  · exact ⟨1, mirrors_offset.times count⟩
  · exact ⟨1, mirrors_methodHandle.times count⟩
  · exact ⟨1, mirrors_nil⟩

end FixupReader
end Dex
end DexArsc
