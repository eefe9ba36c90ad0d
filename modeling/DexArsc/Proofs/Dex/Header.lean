/-
Headers and map lists are read back from their bytes.
-/

import DexArsc.Dex.Header
import DexArsc.Dex.MapList
import DexArsc.Proofs.Bytes.Word
import DexArsc.Proofs.Dex.Item

namespace DexArsc.Dex

open Reader

theorem reads_readArea (area : Area) : Reads readArea area.bytes area :=
  Reads.bind (reads_word32 area.size) ((reads_word32 area.offset).bind_pure (Area.mk area.size))

namespace Header

/-- A header that can be read: its magic value has the form of the format, and its other parts
have their sizes. -/
structure Sound (header : Header) : Prop where
  magicLength : header.magic.length = 8
  magicStart : header.magic.take 4 = currentMagic.take 4
  magicEnd : header.magic.drop 7 = [0]
  signature : header.signature.length = 20
  endian : header.endianTag = littleEndianTag

theorem encode_eq (header : Header) : encode header =
    header.magic ++ (Bytes.ofWord32 header.checksum ++ (header.signature ++
      (Bytes.ofWord32 header.fileSize ++ (Bytes.ofWord32 header.size ++
      (Bytes.ofWord32 header.endianTag ++ (header.linkData.bytes ++
      (Bytes.ofWord32 header.mapOffset ++ (header.strings.bytes ++ (header.types.bytes ++
      (header.protos.bytes ++ (header.fields.bytes ++ (header.methods.bytes ++
      (header.classes.bytes ++ header.data.bytes))))))))))))) := by
  change ((((((((((((((_ ++ _) ++ _) ++ _) ++ _) ++ _) ++ _) ++ _) ++ _) ++ _) ++ _) ++ _) ++ _) ++ _) ++
    _) = _
  simp only [List.append_assoc]

theorem length_encode {header : Header} (sound : header.Sound) :
    (encode header).length = headerSize := by
  simp only [encode_eq, List.length_append, sound.magicLength, sound.signature, Area.bytes,
    Bytes.length_ofWord32]
  rfl

/-- A header is read back. -/
theorem reads {header : Header} (sound : header.Sound) :
    Reads Codec.read (encode header) header := by
  intro data position stands
  have bound := stands.length_le (by
    intro none
    have length := length_encode sound
    rw [none] at length
    cases length)
  rw [length_encode sound] at bound
  have enough : ¬Cursor.remaining { data, position } < headerSize := by
    change ¬data.size - position < headerSize
    omega
  have magic : ¬(header.magic.take 4 ≠ currentMagic.take 4 ∨ header.magic.drop 7 ≠ [0]) := by
    simp [sound.magicStart, sound.magicEnd]
  have reads : Reads (do
      let magic ← Reader.bytes 8
      if magic.take 4 ≠ currentMagic.take 4 ∨ magic.drop 7 ≠ [0] then
        fail (.dex (.invalidMagic magic))
      let header : Header := {
        magic
        checksum := ← Reader.word32
        signature := ← Reader.bytes 20
        fileSize := ← Reader.word32
        size := ← Reader.word32
        endianTag := ← Reader.word32
        linkData := ← readArea
        mapOffset := ← Reader.word32
        strings := ← readArea
        types := ← readArea
        protos := ← readArea
        fields := ← readArea
        methods := ← readArea
        classes := ← readArea
        data := ← readArea }
      if header.endianTag = bigEndianTag then
        fail (.dex .bigEndian)
      if header.endianTag ≠ littleEndianTag then
        fail (.dex (.invalidEndianTag header.endianTag))
      return header) (encode header) header := by
    have magicBytes := reads_bytes header.magic
    have signature := reads_bytes header.signature
    rw [sound.magicLength] at magicBytes
    rw [sound.signature] at signature
    rw [encode_eq]
    refine Reads.bind magicBytes ?_
    rw [if_neg magic]
    refine Reads.bind (reads_word32 _) ?_
    refine Reads.bind signature ?_
    refine Reads.bind (reads_word32 _) ?_
    refine Reads.bind (reads_word32 _) ?_
    refine Reads.bind (reads_word32 _) ?_
    refine Reads.bind (reads_readArea _) ?_
    refine Reads.bind (reads_word32 _) ?_
    refine Reads.bind (reads_readArea _) ?_
    refine Reads.bind (reads_readArea _) ?_
    refine Reads.bind (reads_readArea _) ?_
    refine Reads.bind (reads_readArea _) ?_
    refine Reads.bind (reads_readArea _) ?_
    refine Reads.bind (reads_readArea _) ?_
    rw [← List.append_nil header.data.bytes]
    refine Reads.bind (reads_readArea _) ?_
    have little : header.endianTag ≠ bigEndianTag := by
      rw [sound.endian]
      decide
    rw [if_neg little, if_neg (not_not_intro sound.endian)]
    exact Reads.pure header
  change (Reader.remaining >>= _) _ = _
  rw [Step.bind_ok (show Reader.remaining { data, position } =
    .ok (Cursor.remaining { data, position }) { data, position } from rfl), if_neg enough]
  exact reads data position stands

/-- What a header is read with is in its form. -/
theorem sound_of_read {data : Bytes} {header : Header} {stop : Cursor}
    (run : (Codec.read : Reader Header) { data } = .ok header stop) : header.Sound := by
  obtain ⟨_, _, here, run⟩ := Step.bind_eq_ok.1 run
  cases here
  obtain ⟨_, run⟩ := Step.guard_eq_ok.1 run
  obtain ⟨magic, _, magicRun, run⟩ := Step.bind_eq_ok.1 run
  have magicLength := length_of_bytesAs magicRun
  obtain ⟨_, _, rfl⟩ := bytesAs_eq_ok.1 magicRun
  obtain ⟨form, run⟩ := Step.guard_eq_ok.1 run
  obtain ⟨checksum, _, word, run⟩ := Step.bind_eq_ok.1 run
  obtain ⟨_, _, wordRun, yields⟩ := Step.bind_eq_ok.1 word
  obtain ⟨_, _, rfl⟩ := bytesAs_eq_ok.1 wordRun
  cases yields
  obtain ⟨signature, _, signatureRun, run⟩ := Step.bind_eq_ok.1 run
  have signatureLength := length_of_bytesAs signatureRun
  iterate 12 obtain ⟨_, _, _, run⟩ := Step.bind_eq_ok.1 run
  obtain ⟨_, run⟩ := Step.guard_eq_ok.1 run
  obtain ⟨little, run⟩ := Step.guard_eq_ok.1 run
  cases run
  rw [not_or, not_ne_iff, not_ne_iff] at form
  exact ⟨magicLength, form.1, form.2, signatureLength, not_ne_iff.1 little⟩

end Header

namespace MapList

/-- A map list that can be read: its kinds are distinct, and each is the one that its code names. -/
structure Sound (map : MapList) : Prop where
  distinct : (map.items.map MapItem.kind).Nodup
  canonical : ∀ item ∈ map.items, SectionKind.ofCode item.kind.code = item.kind

theorem length_encodeItem (item : MapItem) : (encodeItem item).length = 12 := rfl

/-- Entries in the order of their offsets are not sorted. -/
theorem byOffset_of_ascending {map : MapList}
    (ascending : map.items.Pairwise fun first second => first.offset < second.offset) : map.byOffset = map.items :=
  List.mergeSort_of_pairwise (ascending.imp fun less => by simp [less])

theorem length_encode (map : MapList) : (encode map).length = sizeOf map.items.length := by
  change (_ ++ _ : List UInt8).length = _
  rw [List.length_append, Bytes.length_ofWord32, sizeOf]
  congr 1
  induction map.items with
  | nil => rfl
  | cons item rest ih =>
      rw [List.flatMap_cons, List.length_append, ih, length_encodeItem, List.length_cons]
      omega

/-- An entry that is read has a kind of its own. -/
theorem readItem_eq_ok {before : List MapItem} {item : MapItem} {start stop : Cursor}
    (run : readItem before start = .ok item stop) : item.kind ∉ before.map MapItem.kind := by
  iterate 4 obtain ⟨_, _, _, run⟩ := Step.bind_eq_ok.1 run
  obtain ⟨once, run⟩ := Step.guard_eq_ok.1 run
  cases run
  intro inside
  obtain ⟨other, listed, same⟩ := List.mem_map.1 inside
  exact once (List.any_eq_true.2 ⟨other, listed, beq_iff_eq.2 same⟩)

theorem readItems_eq_ok {count : Nat} {before items : List MapItem} {start stop : Cursor}
    (distinct : (before.map MapItem.kind).Nodup) (run : readItems count before start = .ok items stop) :
    (items.map MapItem.kind).Nodup := by
  induction count generalizing before start with
  | zero =>
      cases run
      exact distinct
  | succ count ih =>
      obtain ⟨item, _, itemRun, run⟩ := Step.bind_eq_ok.1 run
      refine ih ?_ run
      rw [List.map_append, List.map_singleton, List.nodup_append]
      refine ⟨distinct, List.pairwise_singleton .., fun kind listed other single same => ?_⟩
      rw [same, List.mem_singleton.1 single] at listed
      exact readItem_eq_ok itemRun listed

/-- The kinds of a map list that was read are distinct. -/
theorem distinct_of_read {map : MapList} {start stop : Cursor}
    (run : (Codec.read : Reader MapList) start = .ok map stop) : (map.items.map MapItem.kind).Nodup := by
  obtain ⟨_, _, _, run⟩ := Step.bind_eq_ok.1 run
  obtain ⟨_, _, _, run⟩ := Step.bind_eq_ok.1 run
  obtain ⟨_, run⟩ := Step.guard_eq_ok.1 run
  obtain ⟨items, _, itemsRun, run⟩ := Step.bind_eq_ok.1 run
  cases run
  exact @readItems_eq_ok _ [] _ _ _ List.Pairwise.nil itemsRun

theorem reads_readItem (item : MapItem) (canonical : SectionKind.ofCode item.kind.code = item.kind)
    (before : List MapItem) (new : item.kind ∉ before.map MapItem.kind) :
    Reads (readItem before) (encodeItem item) item := by
  have once : before.any (·.kind == item.kind) = false := by
    rw [List.any_eq_false]
    intro other inside same
    apply new
    rw [← beq_iff_eq.1 same]
    exact List.mem_map_of_mem inside
  have reads : Reads (readItem before) (Bytes.ofWord16 item.kind.code ++ (Bytes.ofWord16 0 ++
      (Bytes.ofWord32 item.size ++ (Bytes.ofWord32 item.offset ++ [])))) item := by
    refine Reads.bind (reads_word16 _) ?_
    refine Reads.bind (reads_word16 _) ?_
    refine Reads.bind (reads_word32 _) ?_
    refine Reads.bind (reads_word32 _) ?_
    rw [canonical, once]
    exact Reads.pure item
  rw [List.append_nil, ← List.append_assoc, ← List.append_assoc] at reads
  exact reads

theorem reads_readItems (items before : List MapItem)
    (canonical : ∀ item ∈ items, SectionKind.ofCode item.kind.code = item.kind)
    (distinct : ((before ++ items).map MapItem.kind).Nodup) :
    Reads (readItems items.length before) (items.flatMap encodeItem) (before ++ items) := by
  induction items generalizing before with
  | nil =>
      rw [List.append_nil]
      exact Reads.pure before
  | cons item rest ih =>
      rw [List.map_append, List.map_cons] at distinct
      have new : item.kind ∉ before.map MapItem.kind := fun inside =>
        (List.nodup_append.1 distinct).2.2 _ inside _ List.mem_cons_self rfl
      refine Reads.bind (reads_readItem item (canonical item List.mem_cons_self) before new) ?_
      have tail := ih (before ++ [item]) (fun other inside => canonical other
        (List.mem_cons_of_mem _ inside)) (by simpa using distinct)
      rwa [List.append_assoc, List.singleton_append] at tail

/-- A map list is read back. -/
theorem reads {map : MapList} (sound : map.Sound) (fits : (encode map).length < UInt32.size) :
    Reads Codec.read (encode map) map := by
  have length := length_encode map
  have count : (UInt32.ofNat map.items.length).toNat = map.items.length := by
    apply toNat_ofNat_of_lt
    rw [length, sizeOf] at fits
    omega
  change Reads _ (Bytes.ofWord32 (UInt32.ofNat map.items.length) ++
    map.items.flatMap encodeItem) map
  refine Reads.bind (reads_word32 _) ?_
  intro data position stands
  have enough : ¬Cursor.remaining { data, position } <
      (UInt32.ofNat map.items.length).toNat * 12 := by
    rw [count]
    by_cases none : map.items.flatMap encodeItem = []
    · cases items : map.items with
      | nil => simp
      | cons item rest =>
          rw [items, List.flatMap_cons, List.append_eq_nil_iff] at none
          cases none.1
    · have bound := stands.length_le none
      change (_ ++ _ : List UInt8).length = _ at length
      rw [List.length_append, Bytes.length_ofWord32, sizeOf] at length
      change ¬data.size - position < _
      omega
  rw [Step.bind_ok (show Reader.remaining { data, position } =
    .ok (Cursor.remaining { data, position }) { data, position } from rfl), if_neg enough, count]
  exact (reads_readItems map.items [] sound.canonical sound.distinct).bind_pure MapList.mk
    data position stands

end MapList
end DexArsc.Dex
