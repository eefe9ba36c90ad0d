/-
Writing: the pieces of a file stand at their offsets in what is written. The checksum and the signature only
replace bytes of the header, cover only bytes behind themselves, and computing them once more changes nothing.
-/

import DexArsc.Proofs.Bytes.Word
import DexArsc.Proofs.Dex.File.Settle
import DexArsc.Proofs.Dex.Header
import DexArsc.Proofs.Dex.Reference

namespace DexArsc.Dex

/-- What is written, with pieces at their offsets one behind the other. -/
def writePieces (fill : UInt8) (pieces : List (UInt32 × List UInt8)) (out : Bytes) :
    Except Fault Bytes :=
  pieces.foldlM (fun out piece => writeAt fill piece.1 piece.2 out) out

theorem writePieces_cons {fill : UInt8} {piece : UInt32 × List UInt8}
    {rest : List (UInt32 × List UInt8)} {out final : Bytes} :
    writePieces fill (piece :: rest) out = .ok final ↔ ∃ next,
      writeAt fill piece.1 piece.2 out = .ok next ∧ writePieces fill rest next = .ok final := by
  unfold writePieces
  rw [List.foldlM_cons, Except.bind_eq_ok]

theorem writePieces_append (fill : UInt8) (first second : List (UInt32 × List UInt8)) (out : Bytes) :
    writePieces fill (first ++ second) out = writePieces fill first out >>= writePieces fill second := by
  unfold writePieces
  rw [List.foldlM_append]

theorem fillTo_eq_ok {fill : UInt8} {offset : UInt32} {out final : Bytes} :
    fillTo fill offset out = .ok final ↔ out.size ≤ offset.toNat ∧
      final = out ++ Array.replicate (offset.toNat - out.size) fill := by
  unfold fillTo
  by_cases behind : offset.toNat < out.size
  · rw [if_pos behind]
    constructor
    · intro same
      cases same
    · rintro ⟨before, _⟩
      omega
  · rw [if_neg behind, Except.ok.injEq, eq_comm]
    simp only [Nat.le_of_not_lt behind, true_and]

theorem writeAt_eq_ok {fill : UInt8} {offset : UInt32} {bytes : List UInt8} {out final : Bytes} :
    writeAt fill offset bytes out = .ok final ↔ out.size ≤ offset.toNat ∧
      final = out ++ Array.replicate (offset.toNat - out.size) fill ++ bytes.toArray := by
  have push (bytes : List UInt8) (out : Bytes) : bytes.foldl Array.push out = out ++ bytes.toArray := by
    simp
  unfold writeAt
  rw [Except.bind_eq_ok]
  simp only [fillTo_eq_ok, push]
  constructor
  · rintro ⟨_, ⟨before, rfl⟩, same⟩
    cases same
    exact ⟨before, rfl⟩
  · rintro ⟨before, rfl⟩
    exact ⟨_, ⟨before, rfl⟩, rfl⟩

/-- Pieces that were written stand at their offsets, behind what was written before. -/
theorem stands_of_writePieces {fill : UInt8} {pieces : List (UInt32 × List UInt8)} {out final : Bytes}
    (written : writePieces fill pieces out = .ok final) :
    (∃ behind : Bytes, final = out ++ behind) ∧
      ∀ piece ∈ pieces, out.size ≤ piece.1.toNat ∧ final.Stands piece.1.toNat piece.2 := by
  induction pieces generalizing out with
  | nil =>
      cases written
      exact ⟨⟨#[], by simp⟩, by simp⟩
  | cons piece rest ih =>
      obtain ⟨next, here, later⟩ := writePieces_cons.1 written
      obtain ⟨⟨behind, rfl⟩, stand⟩ := ih later
      obtain ⟨before, rfl⟩ := writeAt_eq_ok.1 here
      refine ⟨⟨Array.replicate (piece.1.toNat - out.size) fill ++ piece.2.toArray ++ behind,
        by simp only [Array.append_assoc]⟩, ?_⟩
      intro other inside
      rcases List.mem_cons.1 inside with rfl | inside
      · refine ⟨before, ?_⟩
        unfold Bytes.Stands
        simp only [Array.toList_append, List.append_assoc]
        rw [← List.append_assoc, List.drop_left' (by simp; omega)]
        exact List.prefix_append ..
      · obtain ⟨beyond, stands⟩ := stand other inside
        refine ⟨?_, stands⟩
        simp only [Array.size_append] at beyond
        omega

/-- What is written behind depends only on the size of what stands before. -/
theorem writePieces_congr {fill : UInt8} {pieces : List (UInt32 × List UInt8)} {out other behind : Bytes}
    (size : other.size = out.size) (written : writePieces fill pieces out = .ok (out ++ behind)) :
    writePieces fill pieces other = .ok (other ++ behind) := by
  induction pieces generalizing out other behind with
  | nil =>
      unfold writePieces at written ⊢
      simp only [List.foldlM_nil] at written ⊢
      have none : behind = #[] := by
        have sizes := congrArg Array.size (Except.ok.inj written)
        rw [Array.size_append] at sizes
        exact Array.eq_empty_of_size_eq_zero (by omega)
      rw [none, Array.append_empty]
      rfl
  | cons piece rest ih =>
      obtain ⟨next, here, later⟩ := writePieces_cons.1 written
      obtain ⟨⟨more, whole⟩, _⟩ := stands_of_writePieces later
      obtain ⟨before, rfl⟩ := writeAt_eq_ok.1 here
      rw [writePieces_cons]
      rw [whole] at later
      have behind_eq : behind = Array.replicate (piece.1.toNat - out.size) fill ++ piece.2.toArray ++
          more := by
        rw [← Array.append_right_inj out, whole]
        simp only [Array.append_assoc]
      refine ⟨_, writeAt_eq_ok.2 ⟨by rw [size]; exact before, rfl⟩, ?_⟩
      rw [size, behind_eq, ← Array.append_assoc, ← Array.append_assoc]
      exact ih (by simp [size]) later

namespace Section

variable {α : Type}

/-- The items that are written are the rows of the section. -/
theorem writeItems_eq (items : Section α) (fill : UInt8)
    (place : (offset : UInt32) → α → UInt32 × List UInt8) (out : Bytes) :
    items.writeItems fill place out =
      writePieces fill (items.rows.map fun row => place row.1 row.2) out := by
  have rows : items.rows.map (fun row => place row.1 row.2) =
      items.entries.map fun entry => place ((items.offsetOf? entry.1).getD 0) entry.2 := by
    unfold rows entries
    rw [List.map_filterMap, List.map_filterMap]
    congr 1
    funext id
    simp only [item?_eq, offsetOf?, Option.map_map]
    cases here : items.live? id with
    | none => rfl
    | some cell => cases item : cell.item <;> simp [item, here]
  rw [rows]
  unfold writeItems writePieces
  rw [List.foldlM_map]

end Section

namespace DexFile

variable {file : DexFile}

/-- The pieces of a section. -/
def piecesAt (file : DexFile) : LayoutEntry → List (UInt32 × List UInt8)
  | .raw index => (file.raws[index]?.map fun raw => (raw.offset, raw.bytes.toList)).toList
  | .modelled .mapList => [(file.header.mapOffset, encode file.map)]
  | .modelled .stringId =>
    file.strings.items.rows.map fun row => (row.1, Bytes.ofWord32 row.2.dataOffset)
  | .modelled .stringData =>
    file.strings.items.rows.map fun row => (row.2.dataOffset, encode row.2.value)
  | .modelled kind =>
    ((Part.ofKind? kind).map fun part =>
      (part.items file).rows.map fun row => (row.1, encode row.2)).getD []

/-- The pieces of all sections that have items. -/
def pieces (file : DexFile) : List (UInt32 × List UInt8) :=
  file.present.flatMap file.piecesAt

theorem piecesAt_kind (file : DexFile) (part : Part) : file.piecesAt (.modelled part.kind) =
    (part.items file).rows.map fun row => (row.1, encode row.2) := by
  cases part <;> rfl

/-- A section that has items is written by its pieces, and the others are not written. -/
theorem writeEntry_eq (fill : UInt8) (out : Bytes) (entry : LayoutEntry) :
    file.writeEntry fill out entry =
      if 0 < file.countOf entry then writePieces fill (file.piecesAt entry) out else .ok out := by
  unfold writeEntry
  by_cases some : 0 < file.countOf entry
  · rw [if_neg (by omega), if_pos some]
    cases entry with
    | raw index =>
        simp only [piecesAt]
        cases file.raws[index]? with
        | none => rfl
        | some raw =>
            change writeAt fill raw.offset raw.bytes.toList out = _
            unfold writePieces
            simp
    | modelled kind =>
        rcases modelled_of_countOf some with rfl | rfl | rfl | rfl | ⟨part, rfl⟩
        · rfl
        · unfold writePieces
          simp [piecesAt, writeSection]
        · exact Section.writeItems_eq file.strings.items fill
            (fun offset item => (offset, Bytes.ofWord32 item.dataOffset)) out
        · exact Section.writeItems_eq file.strings.items fill
            (fun _ item => (item.dataOffset, encode item.value)) out
        · simp only [Part.writeSection_kind, piecesAt_kind]
          exact Section.writeItems_eq ..
  · rw [if_pos (by omega), if_neg some]

/-- A file is written by its pieces behind the header. -/
theorem write_eq (file : DexFile) (fill : UInt8) : file.write fill =
    writePieces fill file.pieces (encode file.header).toArray >>=
      fillTo fill file.header.fileSize := by
  have sections (entries : List LayoutEntry) (out : Bytes) :
      entries.foldlM (file.writeEntry fill) out = writePieces fill
        ((entries.filter fun entry => 0 < file.countOf entry).flatMap file.piecesAt) out := by
    induction entries generalizing out with
    | nil => rfl
    | cons entry rest ih =>
        rw [List.foldlM_cons, writeEntry_eq]
        by_cases some : 0 < file.countOf entry
        · have kept : (entry :: rest).filter (fun entry => 0 < file.countOf entry) =
              entry :: rest.filter fun entry => 0 < file.countOf entry := by simp [some]
          rw [if_pos some, kept, List.flatMap_cons, writePieces_append]
          exact congrArg (writePieces fill (file.piecesAt entry) out >>= ·) (funext ih)
        · have dropped : (entry :: rest).filter (fun entry => 0 < file.countOf entry) =
              rest.filter fun entry => 0 < file.countOf entry := by simp [some]
          rw [if_neg some, dropped]
          exact ih out
  unfold write
  rw [sections]
  rfl

/-- What is written: the header, the pieces at their offsets, and no more than the file size. -/
theorem stands_of_write {fill : UInt8} {out : Bytes} (written : file.write fill = .ok out) :
    out.size = file.header.fileSize.toNat ∧ out.Stands 0 (encode file.header) ∧
      ∀ piece ∈ file.pieces, (encode file.header).length ≤ piece.1.toNat ∧
        out.Stands piece.1.toNat piece.2 := by
  rw [write_eq, Except.bind_eq_ok] at written
  obtain ⟨body, pieces, filled⟩ := written
  obtain ⟨inside, rfl⟩ := fillTo_eq_ok.1 filled
  obtain ⟨⟨behind, rfl⟩, stand⟩ := stands_of_writePieces pieces
  refine ⟨?_, ?_, ?_⟩
  · simp only [Array.size_append, Array.size_replicate] at inside ⊢
    omega
  · unfold Bytes.Stands
    simp only [Array.toList_append, List.append_assoc, List.drop_zero]
    exact List.prefix_append ..
  · intro piece listed
    obtain ⟨before, stands⟩ := stand piece listed
    refine ⟨by simpa using before, ?_⟩
    by_cases empty : piece.2 = []
    · rw [empty]
      exact Bytes.Stands.nil
    · exact stands.extend _ empty

end DexFile
end DexArsc.Dex

namespace DexArsc

namespace Bytes

/-- Bytes of one length that replace others. -/
theorem overwrite_middle (before middle behind new : List UInt8) (length : new.length = middle.length) :
    overwrite (before ++ (middle ++ behind)).toArray before.length new =
      (before ++ (new ++ behind)).toArray := by
  induction new generalizing before middle with
  | nil =>
      rw [List.length_nil, eq_comm, List.length_eq_zero_iff] at length
      rw [length]
      rfl
  | cons byte rest ih =>
      cases middle with
      | nil => cases length
      | cons first others =>
          have next := ih (before ++ [byte]) others (by simpa using length)
          simp only [List.length_append, List.length_cons, List.length_nil, List.append_assoc,
            List.singleton_append] at next
          have set : ((before ++ (first :: others ++ behind)).toArray.setIfInBounds before.length byte) =
              (before ++ (byte :: (others ++ behind))).toArray := by
            simp
          rw [overwrite, set, next]
          rfl

end Bytes

theorem Sha1.length_bytes (state : Sha1) : state.bytes.length = 20 := by
  simp [Sha1.bytes, Sha1.bigEndian]

theorem length_sha1 (message : Bytes) : (sha1 message).length = 20 :=
  Sha1.length_bytes _

/-- A checksum covers the bytes from its start on. -/
theorem adler32_eq (data : Bytes) (start : Nat) :
    adler32 data start = ((data.extract start data.size).foldl Adler.push {}).word := by
  unfold adler32
  rw [Array.foldl_eq_foldl_extract]

namespace Dex

/-- The signature of what is written. -/
def signatureOf (out : Bytes) : List UInt8 :=
  sha1 (out.extract (DexFile.signaturePosition + 20) out.size)

/-- What is written, with its signature. -/
def signed (out : Bytes) : Bytes :=
  out.overwrite DexFile.signaturePosition (signatureOf out)

/-- The checksum of what is written and signed. -/
def checksumOf (out : Bytes) : UInt32 :=
  adler32 (signed out) DexFile.signaturePosition

/-- What is written, with its signature and its checksum. -/
def sealed (out : Bytes) : Bytes :=
  (signed out).putWord32 DexFile.checksumPosition (checksumOf out)

@[simp] theorem size_sealed (out : Bytes) : (sealed out).size = out.size := by
  rw [sealed, Bytes.size_putWord32, signed, Bytes.size_overwrite]

/-- The byte at a place of what is sealed. -/
theorem getElem?_sealed (out : Bytes) (place : Nat) : (sealed out)[place]? =
    if 8 ≤ place ∧ place < 12 ∧ place < out.size then (Bytes.ofWord32 (checksumOf out))[place - 8]?
    else (signed out)[place]? := by
  rw [sealed, Bytes.putWord32, Bytes.getElem?_overwrite, signed, Bytes.size_overwrite]
  rfl

theorem getElem?_signed (out : Bytes) (place : Nat) : (signed out)[place]? =
    if 12 ≤ place ∧ place < 32 ∧ place < out.size then (signatureOf out)[place - 12]?
    else out[place]? := by
  rw [signed, Bytes.getElem?_overwrite, signatureOf, length_sha1]
  rfl

/-- The signature covers nothing that is replaced. -/
theorem signatureOf_sealed (out : Bytes) : signatureOf (sealed out) = signatureOf out := by
  have same : (sealed out).extract 32 (sealed out).size = out.extract 32 out.size := by
    apply Array.ext_getElem?
    intro place
    rw [Array.getElem?_extract, Array.getElem?_extract, size_sealed]
    split
    · rw [getElem?_sealed, if_neg (by omega), getElem?_signed, if_neg (by omega)]
    · rfl
  exact congrArg sha1 same

/-- What is sealed is signed. -/
theorem signed_sealed (out : Bytes) : signed (sealed out) = sealed out := by
  apply Array.ext_getElem?
  intro place
  rw [getElem?_signed, signatureOf_sealed, size_sealed]
  split
  · rw [getElem?_sealed, if_neg (by omega), getElem?_signed, if_pos (by omega)]
  · rfl

/-- The checksum covers nothing that is replaced behind the signature. -/
theorem checksumOf_sealed (out : Bytes) : checksumOf (sealed out) = checksumOf out := by
  have size : (signed out).size = out.size := by rw [signed, Bytes.size_overwrite]
  have same : (sealed out).extract 12 (sealed out).size = (signed out).extract 12 (signed out).size := by
    apply Array.ext_getElem?
    intro place
    rw [Array.getElem?_extract, Array.getElem?_extract, size_sealed, size]
    split
    · rw [getElem?_sealed, if_neg (by omega)]
    · rfl
  unfold checksumOf
  rw [signed_sealed, adler32_eq, adler32_eq]
  exact congrArg (fun data : Bytes => (data.foldl Adler.push {}).word) same

/-- Sealing once more changes nothing. -/
theorem sealed_sealed (out : Bytes) : sealed (sealed out) = sealed out := by
  apply Array.ext_getElem?
  intro place
  rw [getElem?_sealed, checksumOf_sealed, signed_sealed, size_sealed]
  split
  · rw [getElem?_sealed, if_pos ‹_›]
  · rfl

namespace DexFile

/-- The file with the signature and the checksum of what is written. -/
def sealedBy (file : DexFile) (out : Bytes) : DexFile :=
  { file with header := { file.header with signature := signatureOf out, checksum := checksumOf out } }

/-- A file is refreshed, written and sealed on demand. -/
theorem toBytes_eq_ok {options : WriteOptions} {file final : DexFile} {bytes : Bytes} :
    toBytes options file = .ok bytes final ↔ ∃ mid out, refresh options file = .ok () mid ∧
      mid.write options.fill = .ok out ∧
      if options.updateChecksum then bytes = sealed out ∧ final = mid.sealedBy out
      else bytes = out ∧ final = mid := by
  have rest (mid : DexFile) (out : Bytes) :
      (if options.updateChecksum then do
        modify fun file => file.sealedBy out
        return sealed out
      else return out : Step DexFile Bytes) mid = .ok bytes final ↔
        if options.updateChecksum then bytes = sealed out ∧ final = mid.sealedBy out
        else bytes = out ∧ final = mid := by
    cases options.updateChecksum with
    | false =>
        change EStateM.Result.ok out mid = .ok bytes final ↔ bytes = out ∧ final = mid
        rw [EStateM.Result.ok.injEq, eq_comm, eq_comm (a := mid)]
    | true =>
        change EStateM.Result.ok (sealed out) (mid.sealedBy out) = .ok bytes final ↔
          bytes = sealed out ∧ final = mid.sealedBy out
        rw [EStateM.Result.ok.injEq, eq_comm, eq_comm (a := mid.sealedBy out)]
  change (refresh options >>= fun _ => get >>= fun file : DexFile =>
    monadLift (file.write options.fill) >>= fun out => (if options.updateChecksum then do
        modify fun file => file.sealedBy out
        return sealed out
      else return out : Step DexFile Bytes)) file = _ ↔ _
  rw [Step.bind_eq_ok]
  constructor
  · rintro ⟨_, mid, run, next⟩
    rw [Step.bind_ok (Step.get_apply _), Step.bind_eq_ok] at next
    obtain ⟨out, _, written, next⟩ := next
    obtain ⟨written, rfl⟩ := Step.monadLift_eq_ok.1 written
    exact ⟨_, out, run, written, (rest _ out).1 next⟩
  · rintro ⟨mid, out, run, written, next⟩
    refine ⟨(), mid, run, ?_⟩
    rw [Step.bind_ok (Step.get_apply _), Step.bind_eq_ok]
    exact ⟨out, mid, Step.monadLift_eq_ok.2 ⟨written, rfl⟩, (rest mid out).2 next⟩

/-- The signature and the checksum replace those of the header that was written. -/
theorem write_sealedBy {file : DexFile} {fill : UInt8} {out : Bytes} (sound : file.header.Sound)
    (written : file.write fill = .ok out) : (file.sealedBy out).write fill = .ok (sealed out) := by
  have sound' : (file.sealedBy out).header.Sound :=
    ⟨sound.magicLength, sound.magicStart, sound.magicEnd, length_sha1 _, sound.endian⟩
  have size : (encode (file.sealedBy out).header).toArray.size =
      (encode file.header).toArray.size := by
    rw [List.size_toArray, List.size_toArray, Header.length_encode sound, Header.length_encode sound']
  have whole (behind : Bytes) (same : out = (encode file.header).toArray ++ behind) :
      sealed out = (encode (file.sealedBy out).header).toArray ++ behind := by
    obtain ⟨rest, header⟩ : ∃ rest, ∀ checksum : UInt32, ∀ signature : List UInt8,
        encode { file.header with checksum, signature } =
          file.header.magic ++ (Bytes.ofWord32 checksum ++ (signature ++ rest)) :=
      ⟨Bytes.ofWord32 file.header.fileSize ++ (Bytes.ofWord32 file.header.size ++
        (Bytes.ofWord32 file.header.endianTag ++ (file.header.linkData.bytes ++
        (Bytes.ofWord32 file.header.mapOffset ++ (file.header.strings.bytes ++
        (file.header.types.bytes ++ (file.header.protos.bytes ++ (file.header.fields.bytes ++
        (file.header.methods.bytes ++ (file.header.classes.bytes ++
        file.header.data.bytes)))))))))), fun checksum signature => Header.encode_eq _⟩
    have first : out = (file.header.magic ++ Bytes.ofWord32 file.header.checksum ++
        (file.header.signature ++ (rest ++ behind.toList))).toArray := by
      rw [same, show encode file.header = _ from header file.header.checksum file.header.signature]
      apply Array.ext'
      simp
    have second : signed out = (file.header.magic ++ (Bytes.ofWord32 file.header.checksum ++
        (signatureOf out ++ (rest ++ behind.toList)))).toArray := by
      have length : signaturePosition =
          (file.header.magic ++ Bytes.ofWord32 file.header.checksum).length := by
        rw [List.length_append, sound.magicLength, Bytes.length_ofWord32]
        rfl
      have changed := Bytes.overwrite_middle (file.header.magic ++ Bytes.ofWord32 file.header.checksum)
        file.header.signature (rest ++ behind.toList) (signatureOf out)
        ((length_sha1 _).trans sound.signature.symm)
      rw [← length, ← first] at changed
      rw [signed, changed, List.append_assoc]
    have third := Bytes.overwrite_middle file.header.magic (Bytes.ofWord32 file.header.checksum)
      (signatureOf out ++ (rest ++ behind.toList)) (Bytes.ofWord32 (checksumOf out)) rfl
    rw [← second, sound.magicLength] at third
    rw [show encode (file.sealedBy out).header = _ from header (checksumOf out) (signatureOf out)]
    apply Array.ext'
    rw [show sealed out = _ from third]
    simp
  rw [write_eq, Except.bind_eq_ok] at written ⊢
  obtain ⟨body, pieces, filled⟩ := written
  obtain ⟨⟨behind, rfl⟩, _⟩ := stands_of_writePieces pieces
  refine ⟨_, writePieces_congr size pieces, ?_⟩
  obtain ⟨inside, same⟩ := fillTo_eq_ok.1 filled
  rw [Array.size_append] at inside
  rw [Array.append_assoc] at same
  refine fillTo_eq_ok.2 ⟨?_, ?_⟩
  · rw [Array.size_append, size]
    exact inside
  · rw [whole _ same, Array.size_append, Array.size_append, size, Array.append_assoc]
    rfl

end DexFile
end Dex
end DexArsc
