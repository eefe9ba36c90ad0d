/-
The bounded reader over all of its operations, failing ones included. In every state that it reaches the open extents
are nested, they end within the data, and the position does not pass the innermost end. So every slice of the data is in
range, a failure changes nothing but the extent that a closing gives up, and an extent that stays open hides all bytes
behind its end.
-/

import DexArsc.Proofs.Bytes.Leb
import DexArsc.Proofs.Bytes.Word

namespace DexArsc

/-- The bytes between two places of the data. There are none to give when the slice is out of range. -/
def Bytes.slice? (data : Bytes) (start stop : Nat) : Option (List UInt8) :=
  if start ≤ stop ∧ stop ≤ data.size then some (data.extract start stop).toList else none

namespace Cursor

/-- The open extents are nested and end within the data, and the position does not pass the innermost end. -/
structure Bounded (cursor : Cursor) : Prop where
  nested : (cursor.limits ++ [cursor.data.size]).Pairwise (· ≤ ·)
  position_le : cursor.position ≤ cursor.limit

/-- Where an operation can take a cursor. -/
inductive Moves (cursor : Cursor) : Cursor → Prop
  | within {position : Nat} (within : position ≤ cursor.limit) : Moves cursor { cursor with position }
  | opened {limit : Nat} (here : cursor.position ≤ limit) (within : limit ≤ cursor.limit) :
    Moves cursor { cursor with limits := limit :: cursor.limits }
  | closed {limit : Nat} {limits : List Nat} (found : cursor.limits = limit :: limits) :
    Moves cursor { cursor with limits }
  | skipped {limit : Nat} {limits : List Nat} (found : cursor.limits = limit :: limits) :
    Moves cursor { cursor with position := limit, limits }

variable {cursor final : Cursor}

theorem Bounded.start (data : Bytes) : Bounded { data } where
  nested := List.pairwise_singleton _ _
  position_le := Nat.zero_le _

theorem limit_of_cons {limit : Nat} {limits : List Nat} (found : cursor.limits = limit :: limits) :
    cursor.limit = limit := by
  rw [Cursor.limit, found]
  rfl

/-- No extent that is open ends before the innermost one. -/
theorem Bounded.limit_le (bounded : cursor.Bounded) {stop : Nat}
    (found : stop ∈ cursor.limits ++ [cursor.data.size]) : cursor.limit ≤ stop := by
  have nested := bounded.nested
  cases extents : cursor.limits with
  | nil =>
      rw [extents] at found
      obtain rfl : stop = cursor.data.size := by simpa using found
      rw [Cursor.limit, extents]
      exact Nat.le_refl _
  | cons limit limits =>
      rw [limit_of_cons extents]
      rw [extents] at found nested
      rcases List.mem_cons.1 found with rfl | found
      · exact Nat.le_refl _
      · exact (List.pairwise_cons.1 nested).1 stop found

theorem Bounded.limit_le_size (bounded : cursor.Bounded) : cursor.limit ≤ cursor.data.size :=
  bounded.limit_le (List.mem_append_right _ List.mem_cons_self)

/-- Behind the innermost extent the enclosing one has the same bounds, from any place before the end. -/
theorem Bounded.enclosing (bounded : cursor.Bounded) {limit position : Nat} {limits : List Nat}
    (found : cursor.limits = limit :: limits) (before : position ≤ limit) :
    Bounded { cursor with position, limits } := by
  have nested := bounded.nested
  rw [found] at nested
  obtain ⟨least, nested⟩ := List.pairwise_cons.1 nested
  refine ⟨nested, Nat.le_trans before ?_⟩
  cases limits with
  | nil => exact least cursor.data.size List.mem_cons_self
  | cons next limits => exact least next List.mem_cons_self

theorem Bounded.moves (bounded : cursor.Bounded) (moves : cursor.Moves final) : final.Bounded := by
  cases moves with
  | within within => exact ⟨bounded.nested, within⟩
  | opened here within =>
      refine ⟨List.pairwise_cons.2 ⟨fun stop found => ?_, bounded.nested⟩, here⟩
      exact Nat.le_trans within (bounded.limit_le found)
  | closed found => exact bounded.enclosing found (limit_of_cons found ▸ bounded.position_le)
  | skipped found => exact bounded.enclosing found (Nat.le_refl _)

theorem Moves.data_eq (moves : cursor.Moves final) : final.data = cursor.data := by
  cases moves <;> rfl

end Cursor

namespace Leb

/-- At most as many bytes are looked at as there are groups. -/
theorem decodeGroups_take {limit groups count before few : Nat} {encoded : List UInt8} (enough : groups ≤ few) :
    decodeGroups limit groups count before (encoded.take few) = decodeGroups limit groups count before encoded := by
  induction groups generalizing count before few encoded with
  | zero => rfl
  | succ groups ih =>
      cases encoded with
      | nil => rw [List.take_nil]
      | cons byte rest =>
          obtain ⟨few, rfl⟩ : ∃ less, few = less + 1 := ⟨few - 1, by omega⟩
          rw [List.take_succ_cons, decodeGroups, decodeGroups]
          simp only [ih (Nat.le_of_succ_le_succ enough)]

theorem decodeSignedGroups_take {groups count before few : Nat} {encoded : List UInt8} (enough : groups ≤ few) :
    decodeSignedGroups groups count before (encoded.take few) = decodeSignedGroups groups count before encoded := by
  induction groups generalizing count before few encoded with
  | zero => rfl
  | succ groups ih =>
      cases encoded with
      | nil => rw [List.take_nil]
      | cons byte rest =>
          obtain ⟨few, rfl⟩ : ∃ less, few = less + 1 := ⟨few - 1, by omega⟩
          rw [List.take_succ_cons, decodeSignedGroups, decodeSignedGroups]
          simp only [ih (Nat.le_of_succ_le_succ enough)]

/-- A decoder that looks at no more bytes than a number has groups, and takes no more than there are. -/
structure Short {α : Type} (decode : List UInt8 → Except Fault (α × Nat)) : Prop where
  take_eq : ∀ encoded, decode (encoded.take maxGroups) = decode encoded
  taken_le : ∀ {encoded : List UInt8} {value : α} {taken : Nat},
    decode encoded = .ok (value, taken) → taken ≤ encoded.length

theorem short_decode (groups : Nat) : Short fun encoded => decode encoded groups where
  take_eq encoded := decodeGroups_take (Nat.min_le_right groups maxGroups)
  taken_le decodes := by
    obtain ⟨bytes, stands, rfl, -⟩ := decodeGroups_eq_ok decodes
    simpa using stands.length_le

theorem short_decodePlusOne : Short decodePlusOne where
  take_eq encoded := by
    rw [decodePlusOne, decodePlusOne, (short_decode maxGroups).take_eq]
  taken_le decodes := by
    obtain ⟨⟨value, taken⟩, decodes, same⟩ := Except.bind_eq_ok.1 decodes
    cases same
    exact (short_decode maxGroups).taken_le decodes

theorem short_decodeSigned : Short decodeSigned where
  take_eq encoded := decodeSignedGroups_take (Nat.le_refl maxGroups)
  taken_le decodes := by
    obtain ⟨bytes, stands, rfl, -⟩ := decodeSignedGroups_eq_ok decodes
    simpa using stands.length_le

end Leb

namespace Reader

/-- What an operation answers. -/
inductive Answer
  | done
  | number (value : Int)
  | bytes (bytes : List UInt8)
  | flag (value : Bool)
  deriving DecidableEq

/-- The operations of the reader. -/
inductive Operation
  | byte
  | word16
  | word32
  | bytes (count : Nat)
  | peek (count : Nat)
  | leb
  | lebWithin (groups : Nat)
  | lebPlusOne
  | signedLeb
  | align (alignment : Nat)
  | seek (position : Nat)
  | openExtent (size : Nat)
  | closeExtent
  | skipExtent
  | position
  | limit
  | remaining
  | isAtEnd
  deriving DecidableEq

namespace Operation

/-- The step of an operation. -/
def perform : Operation → Reader Answer
  | byte => (fun value => .number value.toNat) <$> Reader.byte
  | word16 => (fun value => .number value.toNat) <$> Reader.word16
  | word32 => (fun value => .number value.toNat) <$> Reader.word32
  | bytes count => .bytes <$> Reader.bytes count
  | peek count => .bytes <$> Reader.peek count
  | leb => (fun value => .number value.toNat) <$> Reader.leb
  | lebWithin groups => (fun value => .number value.toNat) <$> Reader.lebWithin groups
  | lebPlusOne => .number <$> Reader.lebPlusOne
  | signedLeb => (fun value => .number value.toInt) <$> Reader.signedLeb
  | align alignment => (fun count : Nat => .number count) <$> Reader.align alignment
  | seek target => (fun _ => .done) <$> Reader.seek target
  | openExtent size => (fun _ => .done) <$> Reader.openExtent size
  | closeExtent => (fun _ => .done) <$> Reader.closeExtent
  | skipExtent => (fun count : Nat => .number count) <$> Reader.skipExtent
  | position => (fun position : Nat => .number position) <$> Reader.position
  | limit => return .number (← get).limit
  | remaining => (fun count : Nat => .number count) <$> Reader.remaining
  | isAtEnd => return .flag (← get).isAtEnd

/-- What an operation answers, and the cursor behind it, also behind one that fails. -/
def outcome (operation : Operation) (cursor : Cursor) : Except Fault Answer × Cursor :=
  match operation.perform cursor with
  | .ok answer final => (.ok answer, final)
  | .error fault final => (.error fault, final)

/-- The cursor behind operations, failing ones included. -/
def run (operations : List Operation) (cursor : Cursor) : Cursor :=
  operations.foldl (fun cursor operation => (operation.outcome cursor).2) cursor

/-- What each of some operations answers, with the position and the extents behind it. -/
def trace : List Operation → Cursor → List (Except Fault Answer × Nat × List Nat)
  | [], _ => []
  | operation :: later, cursor =>
    let (answer, final) := operation.outcome cursor
    (answer, final.position, final.limits) :: trace later final

/-- An extent with this end is open in front of each of some operations. -/
def KeepsOpen (stop : Nat) : List Operation → Cursor → Prop
  | [], _ => True
  | operation :: later, cursor => stop ∈ cursor.limits ∧ KeepsOpen stop later (operation.outcome cursor).2

instance decidableKeepsOpen (stop : Nat) :
    (later : List Operation) → (cursor : Cursor) → Decidable (KeepsOpen stop later cursor)
  | [], _ => inferInstanceAs (Decidable True)
  | operation :: later, cursor =>
    have := decidableKeepsOpen stop later (operation.outcome cursor).2
    inferInstanceAs (Decidable (_ ∧ _))

end Operation

/-- The next bytes by a slice of the data from the position. -/
def readSlice? (what : String) (count passed : Nat) (answer : List UInt8 → Answer) (cursor : Cursor) :
    Option (EStateM.Result Fault Cursor Answer) :=
  if cursor.remaining < count then
    some (.error { cause := .bytes (.endOfStream what cursor.position) } cursor)
  else
    (cursor.data.slice? cursor.position (cursor.position + count)).map fun bytes =>
      .ok (answer bytes) { cursor with position := cursor.position + passed }

/-- A number by a slice of the data from the position to the limit. -/
def decodeSlice? {α : Type} (decode : List UInt8 → Except Fault (α × Nat)) (answer : α → Answer) (cursor : Cursor) :
    Option (EStateM.Result Fault Cursor Answer) :=
  (cursor.data.slice? cursor.position cursor.limit).map fun encoded =>
    match decode encoded with
    | .ok (value, count) => .ok (answer value) { cursor with position := cursor.position + count }
    | .error fault => .error fault cursor

/-- The step of an operation that takes its slices just as it asks for them. There is no result when one is out of
range. -/
def Operation.sliced? (cursor : Cursor) : Operation → Option (EStateM.Result Fault Cursor Answer)
  | byte => readSlice? "u1" 1 1 (fun bytes => .number (UInt8.ofNat (Bytes.littleEndian bytes)).toNat) cursor
  | word16 => readSlice? "u2" 2 2 (fun bytes => .number (UInt16.ofNat (Bytes.littleEndian bytes)).toNat) cursor
  | word32 => readSlice? "u4" 4 4 (fun bytes => .number (UInt32.ofNat (Bytes.littleEndian bytes)).toNat) cursor
  | bytes count => readSlice? "byte array" count count .bytes cursor
  | peek count => readSlice? "byte array" count 0 .bytes cursor
  | leb => decodeSlice? (Leb.decode · Leb.maxGroups) (fun value => .number value.toNat) cursor
  | lebWithin groups => decodeSlice? (Leb.decode · groups) (fun value => .number value.toNat) cursor
  | lebPlusOne => decodeSlice? Leb.decodePlusOne .number cursor
  | signedLeb => decodeSlice? Leb.decodeSigned (fun value => .number value.toInt) cursor
  | operation => some (operation.perform cursor)

variable {α β : Type} {cursor : Cursor}

theorem peekAs_apply (what : String) (count : Nat) (cursor : Cursor) : peekAs what count cursor =
    if cursor.remaining < count then .error { cause := .bytes (.endOfStream what cursor.position) } cursor
    else .ok (cursor.window count) cursor := by
  unfold peekAs
  rw [Step.bind_ok (Step.get_apply _)]
  by_cases few : cursor.remaining < count
  · rw [if_pos few, if_pos few]
    rfl
  · rw [if_neg few, if_neg few]
    rfl

theorem bytesAs_apply (what : String) (count : Nat) (cursor : Cursor) : bytesAs what count cursor =
    if cursor.remaining < count then .error { cause := .bytes (.endOfStream what cursor.position) } cursor
    else .ok (cursor.window count) { cursor with position := cursor.position + count } := by
  unfold bytesAs
  rw [Step.bind_apply, peekAs_apply]
  by_cases few : cursor.remaining < count
  · rw [if_pos few, if_pos few]
  · rw [if_neg few, if_neg few]
    rfl

theorem decoded_apply (decode : List UInt8 → Except Fault (α × Nat)) (cursor : Cursor) :
    decoded decode cursor = match decode (cursor.window Leb.maxGroups) with
      | .ok (value, count) => .ok value { cursor with position := cursor.position + count }
      | .error fault => .error fault cursor := by
  unfold decoded
  rw [Step.bind_ok (Step.get_apply _)]
  rcases decode (cursor.window Leb.maxGroups) with fault | ⟨value, count⟩ <;> rfl

theorem seek_apply (target : Nat) (cursor : Cursor) : seek target cursor =
    if cursor.limit < target then .error { cause := .bytes (.seekBeyondExtent target cursor.limit) } cursor
    else .ok () { cursor with position := target } := by
  unfold seek
  rw [Step.bind_ok (Step.get_apply _)]
  by_cases beyond : cursor.limit < target
  · rw [if_pos beyond, if_pos beyond]
    rfl
  · rw [if_neg beyond, if_neg beyond]
    rfl

theorem openExtent_apply (size : Nat) (cursor : Cursor) : openExtent size cursor =
    if UInt64.size ≤ cursor.position + size then
      .error { cause := .bytes (.sizeOverflow size cursor.position) } cursor
    else if cursor.limit < cursor.position + size then
      .error { cause := .bytes (.sizeBeyondExtent size cursor.position cursor.limit) } cursor
    else .ok () { cursor with limits := (cursor.position + size) :: cursor.limits } := by
  unfold openExtent
  rw [Step.bind_ok (Step.get_apply _)]
  dsimp only
  by_cases overflow : UInt64.size ≤ cursor.position + size
  · rw [if_pos overflow, if_pos overflow]
    rfl
  rw [if_neg overflow, if_neg overflow]
  by_cases beyond : cursor.limit < cursor.position + size
  · rw [if_pos beyond, if_pos beyond]
    rfl
  · rw [if_neg beyond, if_neg beyond]
    rfl

theorem closeExtent_apply (cursor : Cursor) : closeExtent cursor =
    match cursor.limits with
    | [] => .error { cause := .bytes (.noExtent cursor.position) } cursor
    | limit :: limits => if limit = cursor.position then .ok () { cursor with limits }
        else .error { cause := .bytes (.stoppedAt limit cursor.position) } { cursor with limits } := by
  unfold closeExtent
  rw [Step.bind_ok (Step.get_apply _)]
  cases found : cursor.limits with
  | nil => rfl
  | cons limit limits =>
      dsimp only
      by_cases here : limit = cursor.position
      · rw [if_pos here, if_neg (not_not.2 here)]
        rfl
      · rw [if_neg here, if_pos here]
        rfl

theorem skipExtent_apply (cursor : Cursor) : skipExtent cursor =
    match cursor.limits with
    | [] => .error { cause := .bytes (.noExtent cursor.position) } cursor
    | limit :: limits => if limit < cursor.position then
        .error { cause := .bytes (.ranTo limit cursor.position) } { cursor with limits }
      else .ok (limit - cursor.position) { cursor with position := limit, limits } := by
  unfold skipExtent
  rw [Step.bind_ok (Step.get_apply _)]
  cases found : cursor.limits with
  | nil => rfl
  | cons limit limits =>
      dsimp only
      by_cases passed : limit < cursor.position
      · rw [if_pos passed, if_pos passed]
        rfl
      · rw [if_neg passed, if_neg passed]
        rfl

/-- A step that moves a cursor as the operations can, and leaves it as it is when it fails. -/
def Steady (reader : Reader α) (cursor : Cursor) : Prop :=
  reader.Ensures cursor (fun _ final => cursor.Moves final) (· = cursor)

theorem Steady.map {reader : Reader α} (steady : Steady reader cursor) (change : α → β) :
    Steady (change <$> reader) cursor :=
  Step.Ensures.map steady

theorem Steady.bind_pure {reader : Reader α} (steady : Steady reader cursor) (change : α → β) :
    Steady (reader >>= fun value => pure (change value)) cursor :=
  Step.Ensures.bind steady fun _ _ moves => moves

theorem Steady.refuse {reader : Reader α} {fault : Fault} (run : reader cursor = .error fault cursor) :
    Steady reader cursor :=
  Step.Ensures.of_error run rfl

theorem Steady.move {reader : Reader α} {value : α} {final : Cursor} (run : reader cursor = .ok value final)
    (moves : cursor.Moves final) : Steady reader cursor :=
  Step.Ensures.of_ok run moves

theorem Steady.stay {reader : Reader α} {value : α} (bounded : cursor.Bounded)
    (run : reader cursor = .ok value cursor) : Steady reader cursor :=
  .move run (.within bounded.position_le)

theorem steady_peekAs (bounded : cursor.Bounded) (what : String) (count : Nat) :
    Steady (peekAs what count) cursor := by
  by_cases few : cursor.remaining < count
  · exact .refuse ((peekAs_apply ..).trans (if_pos few))
  · exact .stay bounded ((peekAs_apply ..).trans (if_neg few))

theorem steady_bytesAs (bounded : cursor.Bounded) (what : String) (count : Nat) :
    Steady (bytesAs what count) cursor := by
  by_cases few : cursor.remaining < count
  · exact .refuse ((bytesAs_apply ..).trans (if_pos few))
  · refine .move ((bytesAs_apply ..).trans (if_neg few)) (.within ?_)
    have here := bounded.position_le
    unfold Cursor.remaining at few
    omega

theorem length_window_le (cursor : Cursor) (count : Nat) : (cursor.window count).length ≤ cursor.remaining := by
  simp only [Cursor.window, Cursor.remaining, Array.length_toList, Array.size_extract]
  omega

theorem steady_decoded (bounded : cursor.Bounded) {decode : List UInt8 → Except Fault (α × Nat)}
    (short : Leb.Short decode) : Steady (decoded decode) cursor := by
  have run := decoded_apply decode cursor
  cases decodes : decode (cursor.window Leb.maxGroups) with
  | error fault =>
      rw [decodes] at run
      exact .refuse run
  | ok result =>
      rw [decodes] at run
      refine .move run (.within ?_)
      have taken := Nat.le_trans (short.taken_le decodes) (length_window_le cursor Leb.maxGroups)
      have here := bounded.position_le
      unfold Cursor.remaining at taken
      omega

theorem steady_seek (target : Nat) : Steady (seek target) cursor := by
  by_cases beyond : cursor.limit < target
  · exact .refuse ((seek_apply ..).trans (if_pos beyond))
  · exact .move ((seek_apply ..).trans (if_neg beyond)) (.within (Nat.le_of_not_lt beyond))

theorem steady_openExtent (size : Nat) : Steady (openExtent size) cursor := by
  by_cases overflow : UInt64.size ≤ cursor.position + size
  · exact .refuse ((openExtent_apply ..).trans (if_pos overflow))
  by_cases beyond : cursor.limit < cursor.position + size
  · exact .refuse ((openExtent_apply ..).trans ((if_neg overflow).trans (if_pos beyond)))
  · exact .move ((openExtent_apply ..).trans ((if_neg overflow).trans (if_neg beyond)))
      (.opened (Nat.le_add_right ..) (Nat.le_of_not_lt beyond))

/-- The position does not pass the end of the innermost extent, so an extent is skipped whenever one is open. -/
theorem skipExtent_of_bounded (bounded : cursor.Bounded) {limit : Nat} {limits : List Nat}
    (found : cursor.limits = limit :: limits) :
    skipExtent cursor = .ok (limit - cursor.position) { cursor with position := limit, limits } := by
  have before : ¬limit < cursor.position := Nat.not_lt_of_le (Cursor.limit_of_cons found ▸ bounded.position_le)
  rw [skipExtent_apply, found]
  exact if_neg before

theorem steady_skipExtent (bounded : cursor.Bounded) : Steady skipExtent cursor := by
  cases found : cursor.limits with
  | nil => exact .refuse (by rw [skipExtent_apply, found])
  | cons limit limits => exact .move (skipExtent_of_bounded bounded found) (.skipped found)

/-- A closing gives up the innermost extent, also when it fails. -/
theorem closeExtent_ensures (cursor : Cursor) :
    closeExtent.Ensures cursor (fun _ final => final = { cursor with limits := cursor.limits.tail })
      fun final => final = { cursor with limits := cursor.limits.tail } := by
  have run := closeExtent_apply cursor
  cases found : cursor.limits with
  | nil =>
      rw [found] at run
      refine .of_error run ?_
      rw [List.tail_nil, ← found]
  | cons limit limits =>
      rw [found] at run
      by_cases here : limit = cursor.position
      · exact .of_ok (run.trans (if_pos here)) rfl
      · exact .of_error (run.trans (if_neg here)) rfl

theorem moves_tail (bounded : cursor.Bounded) : cursor.Moves { cursor with limits := cursor.limits.tail } := by
  cases found : cursor.limits with
  | nil =>
      rw [List.tail_nil, ← found]
      exact .within bounded.position_le
  | cons limit limits => exact .closed found

theorem Operation.steady (bounded : cursor.Bounded) {operation : Operation} (other : operation ≠ closeExtent) :
    Steady operation.perform cursor := by
  cases operation with
  | closeExtent => exact absurd rfl other
  | byte => exact ((steady_bytesAs bounded ..).bind_pure _).map _
  | word16 => exact ((steady_bytesAs bounded ..).bind_pure _).map _
  | word32 => exact ((steady_bytesAs bounded ..).bind_pure _).map _
  | bytes count => exact (steady_bytesAs bounded ..).map _
  | peek count => exact (steady_peekAs bounded ..).map _
  | leb => exact (steady_decoded bounded (Leb.short_decode _)).map _
  | lebWithin groups => exact (steady_decoded bounded (Leb.short_decode _)).map _
  | lebPlusOne => exact (steady_decoded bounded Leb.short_decodePlusOne).map _
  | signedLeb => exact (steady_decoded bounded Leb.short_decodeSigned).map _
  | align alignment => exact ((steady_bytesAs bounded ..).bind_pure _).map _
  | seek target => exact (steady_seek target).map _
  | openExtent size => exact (steady_openExtent size).map _
  | skipExtent => exact (steady_skipExtent bounded).map _
  | position => exact .stay bounded rfl
  | limit => exact .stay bounded rfl
  | remaining => exact .stay bounded rfl
  | isAtEnd => exact .stay bounded rfl

/-- A failure leaves the cursor as it is, but for a closing, which gives up the innermost extent. -/
theorem Operation.ensures (bounded : cursor.Bounded) (operation : Operation) :
    operation.perform.Ensures cursor (fun _ final => cursor.Moves final) fun final =>
      final = if operation = closeExtent then { cursor with limits := cursor.limits.tail } else cursor := by
  by_cases closing : operation = closeExtent
  · subst closing
    rw [if_pos rfl]
    have closes : Step.Ensures ((fun _ => Answer.done) <$> Reader.closeExtent) cursor
        (fun _ final => final = { cursor with limits := cursor.limits.tail }) _ :=
      Step.Ensures.map (closeExtent_ensures cursor)
    refine closes.imp (fun _ final same => ?_) fun _ same => same
    subst same
    exact moves_tail bounded
  · rw [if_neg closing]
    exact Operation.steady bounded closing

theorem Operation.moves_outcome (bounded : cursor.Bounded) (operation : Operation) :
    cursor.Moves (operation.outcome cursor).2 := by
  have ensures := operation.ensures bounded
  unfold outcome
  cases run : operation.perform cursor with
  | ok answer final => exact ensures.ok run
  | error fault final =>
      have final_eq := ensures.error run
      split at final_eq
      · exact final_eq ▸ moves_tail bounded
      · subst final_eq
        exact .within bounded.position_le

/-- Whatever the operations are, and whether they fail or not, the bounds hold behind them. -/
theorem Operation.bounded_run (bounded : cursor.Bounded) (operations : List Operation) :
    (run operations cursor).Bounded ∧ (run operations cursor).data = cursor.data := by
  induction operations generalizing cursor with
  | nil => exact ⟨bounded, rfl⟩
  | cons operation later ih =>
      have moves := operation.moves_outcome bounded
      obtain ⟨behind, data⟩ := ih (bounded.moves moves)
      exact ⟨behind, data.trans moves.data_eq⟩

theorem map_apply (change : α → β) (reader : Reader α) (cursor : Cursor) :
    (change <$> reader) cursor = match reader cursor with
      | .ok value final => .ok (change value) final
      | .error fault final => .error fault final := by
  change EStateM.map change reader cursor = _
  unfold EStateM.map
  cases reader cursor <;> rfl

theorem map_bind_pure {γ : Type} (change : β → γ) (first : α → β) (reader : Reader α) (cursor : Cursor) :
    (change <$> (reader >>= fun value => pure (first value))) cursor =
      ((fun value => change (first value)) <$> reader) cursor := by
  rw [map_apply, map_apply, Step.bind_apply]
  cases reader cursor <;> rfl

theorem slice?_of_le {data : Bytes} {start stop : Nat} (within : start ≤ stop) (inside : stop ≤ data.size) :
    data.slice? start stop = some (data.extract start stop).toList :=
  if_pos ⟨within, inside⟩

/-- The bytes that a read takes lie in front of the limit. -/
theorem slice?_of_enough (bounded : cursor.Bounded) {count : Nat} (enough : ¬cursor.remaining < count) :
    cursor.data.slice? cursor.position (cursor.position + count) = some (cursor.window count) := by
  have here := bounded.position_le
  have inside := bounded.limit_le_size
  unfold Cursor.remaining at enough
  rw [slice?_of_le (Nat.le_add_right ..) (by omega), Cursor.window, Nat.min_eq_right (by omega)]

theorem readSlice?_eq (bounded : cursor.Bounded) (what : String) (count : Nat) (answer : List UInt8 → Answer) :
    readSlice? what count count answer cursor = some ((answer <$> bytesAs what count) cursor) := by
  rw [readSlice?, map_apply, bytesAs_apply]
  by_cases few : cursor.remaining < count
  · rw [if_pos few, if_pos few]
  · rw [if_neg few, if_neg few, slice?_of_enough bounded few]
    rfl

theorem peekSlice?_eq (bounded : cursor.Bounded) (what : String) (count : Nat) (answer : List UInt8 → Answer) :
    readSlice? what count 0 answer cursor = some ((answer <$> peekAs what count) cursor) := by
  rw [readSlice?, map_apply, peekAs_apply]
  by_cases few : cursor.remaining < count
  · rw [if_pos few, if_pos few]
  · rw [if_neg few, if_neg few, slice?_of_enough bounded few]
    rfl

/-- The first bytes up to the limit are those of the whole slice up to the limit. -/
theorem window_eq_take (cursor : Cursor) (count : Nat) :
    cursor.window count = (cursor.data.extract cursor.position cursor.limit).toList.take count := by
  rw [Cursor.window, Array.toList_extract, Array.toList_extract, List.extract, List.extract, List.take_take]
  congr 1
  omega

theorem decodeSlice?_eq (bounded : cursor.Bounded) {decode : List UInt8 → Except Fault (α × Nat)}
    (short : Leb.Short decode) (answer : α → Answer) :
    decodeSlice? decode answer cursor = some ((answer <$> decoded decode) cursor) := by
  rw [decodeSlice?, slice?_of_le bounded.position_le bounded.limit_le_size, map_apply, decoded_apply, window_eq_take,
    short.take_eq, Option.map_some]
  rcases decode (cursor.data.extract cursor.position cursor.limit).toList with fault | ⟨value, count⟩ <;> rfl

/-- Every slice is in range: an operation yields just what it yields when it takes its slices as it asks for them. -/
theorem Operation.sliced?_eq (bounded : cursor.Bounded) (operation : Operation) :
    operation.sliced? cursor = some (operation.perform cursor) := by
  cases operation with
  | byte =>
      rw [sliced?, readSlice?_eq bounded]
      exact congrArg some (map_bind_pure (fun value => Answer.number value.toNat)
        (fun bytes => UInt8.ofNat (Bytes.littleEndian bytes)) _ cursor).symm
  | word16 =>
      rw [sliced?, readSlice?_eq bounded]
      exact congrArg some (map_bind_pure (fun value => Answer.number value.toNat)
        (fun bytes => UInt16.ofNat (Bytes.littleEndian bytes)) _ cursor).symm
  | word32 =>
      rw [sliced?, readSlice?_eq bounded]
      exact congrArg some (map_bind_pure (fun value => Answer.number value.toNat)
        (fun bytes => UInt32.ofNat (Bytes.littleEndian bytes)) _ cursor).symm
  | bytes count => exact readSlice?_eq bounded ..
  | peek count => exact peekSlice?_eq bounded ..
  | leb => exact decodeSlice?_eq bounded (Leb.short_decode _) _
  | lebWithin groups => exact decodeSlice?_eq bounded (Leb.short_decode _) _
  | lebPlusOne => exact decodeSlice?_eq bounded Leb.short_decodePlusOne _
  | signedLeb => exact decodeSlice?_eq bounded Leb.short_decodeSigned _
  | _ => rfl

end Reader

/-- Data of the same size with the same bytes before the limit. -/
structure Cursor.Hides (cursor : Cursor) (other : Bytes) : Prop where
  size : other.size = cursor.data.size
  same : ∀ place, place < cursor.limit → other[place]? = cursor.data[place]?

/-- The cursor at its place in other data, with the same extents. -/
def Cursor.withData (cursor : Cursor) (other : Bytes) : Cursor :=
  { cursor with data := other }

namespace Cursor.Hides

variable {cursor : Cursor} {other : Bytes}

theorem limit_withData (hides : cursor.Hides other) : (cursor.withData other).limit = cursor.limit := by
  unfold Cursor.limit withData
  rw [hides.size]

theorem remaining_withData (hides : cursor.Hides other) : (cursor.withData other).remaining = cursor.remaining := by
  rw [Cursor.remaining, hides.limit_withData]
  rfl

theorem window_withData (hides : cursor.Hides other) (count : Nat) :
    (cursor.withData other).window count = cursor.window count := by
  rw [Cursor.window, Cursor.window, hides.limit_withData]
  congr 1
  apply Array.ext_getElem?
  intro place
  rw [Array.getElem?_extract, Array.getElem?_extract]
  change (if place < min _ other.size - cursor.position then other[cursor.position + place]? else none) = _
  rw [hides.size]
  refine ite_congr rfl (fun inside => hides.same _ ?_) fun _ => rfl
  omega

end Cursor.Hides

namespace Reader

/-- A result with its cursor in other data. -/
def withData (other : Bytes) : EStateM.Result Fault Cursor α → EStateM.Result Fault Cursor α
  | .ok value final => .ok value (final.withData other)
  | .error fault final => .error fault (final.withData other)

/-- A step that does in other data what it does in the cursor's. -/
def Blind (reader : Reader α) (cursor : Cursor) (other : Bytes) : Prop :=
  reader (cursor.withData other) = withData other (reader cursor)

variable {other : Bytes}

theorem Blind.map {reader : Reader α} (blind : Blind reader cursor other) (change : α → β) :
    Blind (change <$> reader) cursor other := by
  unfold Blind at *
  rw [map_apply, map_apply, blind]
  cases reader cursor <;> rfl

theorem Blind.bind_pure {reader : Reader α} (blind : Blind reader cursor other) (change : α → β) :
    Blind (reader >>= fun value => pure (change value)) cursor other := by
  unfold Blind at *
  rw [Step.bind_apply, Step.bind_apply, blind]
  cases reader cursor <;> rfl

theorem blind_peekAs (hides : cursor.Hides other) (what : String) (count : Nat) :
    Blind (peekAs what count) cursor other := by
  unfold Blind
  rw [peekAs_apply, peekAs_apply, hides.remaining_withData, hides.window_withData, apply_ite (withData other)]
  rfl

theorem blind_bytesAs (hides : cursor.Hides other) (what : String) (count : Nat) :
    Blind (bytesAs what count) cursor other := by
  unfold Blind
  rw [bytesAs_apply, bytesAs_apply, hides.remaining_withData, hides.window_withData, apply_ite (withData other)]
  rfl

theorem blind_decoded (hides : cursor.Hides other) (decode : List UInt8 → Except Fault (α × Nat)) :
    Blind (decoded decode) cursor other := by
  unfold Blind
  rw [decoded_apply, decoded_apply, hides.window_withData]
  rcases decode (cursor.window Leb.maxGroups) with fault | ⟨value, count⟩ <;> rfl

theorem blind_seek (hides : cursor.Hides other) (target : Nat) : Blind (seek target) cursor other := by
  unfold Blind
  rw [seek_apply, seek_apply, hides.limit_withData, apply_ite (withData other)]
  rfl

theorem blind_openExtent (hides : cursor.Hides other) (size : Nat) : Blind (openExtent size) cursor other := by
  unfold Blind
  rw [openExtent_apply, openExtent_apply, hides.limit_withData, apply_ite (withData other), apply_ite (withData other)]
  rfl

theorem blind_closeExtent : Blind closeExtent cursor other := by
  unfold Blind
  rw [closeExtent_apply, closeExtent_apply]
  change (match cursor.limits with | [] => _ | limit :: limits => _) = _
  cases cursor.limits with
  | nil => rfl
  | cons limit limits =>
      dsimp only
      rw [apply_ite (withData other)]
      rfl

theorem blind_skipExtent : Blind skipExtent cursor other := by
  unfold Blind
  rw [skipExtent_apply, skipExtent_apply]
  change (match cursor.limits with | [] => _ | limit :: limits => _) = _
  cases cursor.limits with
  | nil => rfl
  | cons limit limits =>
      dsimp only
      rw [apply_ite (withData other)]
      rfl

theorem blind_query {query : Cursor → α} (same : query (cursor.withData other) = query cursor) :
    Blind (do return query (← get)) cursor other :=
  congrArg (fun value => EStateM.Result.ok value (cursor.withData other)) same

theorem Operation.blind (hides : cursor.Hides other) (operation : Operation) : Blind operation.perform cursor other := by
  cases operation with
  | byte => exact ((blind_bytesAs hides ..).bind_pure _).map _
  | word16 => exact ((blind_bytesAs hides ..).bind_pure _).map _
  | word32 => exact ((blind_bytesAs hides ..).bind_pure _).map _
  | bytes count => exact (blind_bytesAs hides ..).map _
  | peek count => exact (blind_peekAs hides ..).map _
  | leb => exact (blind_decoded hides _).map _
  | lebWithin groups => exact (blind_decoded hides _).map _
  | lebPlusOne => exact (blind_decoded hides _).map _
  | signedLeb => exact (blind_decoded hides _).map _
  | align alignment => exact ((blind_bytesAs hides ..).bind_pure _).map _
  | seek target => exact (blind_seek hides target).map _
  | openExtent size => exact (blind_openExtent hides size).map _
  | closeExtent => exact blind_closeExtent.map _
  | skipExtent => exact blind_skipExtent.map _
  | position => exact (blind_query rfl).map _
  | limit => exact blind_query (congrArg (fun limit : Nat => Answer.number limit) hides.limit_withData)
  | remaining => exact (blind_query hides.remaining_withData).map _
  | isAtEnd => exact blind_query (congrArg (fun count => Answer.flag (count == 0)) hides.remaining_withData)

/-- Operations behind which an extent stays open do the same in all data that agrees in front of the end of the extent. -/
theorem Operation.trace_withData (bounded : cursor.Bounded) {stop : Nat} (size : other.size = cursor.data.size)
    (same : ∀ place, place < stop → other[place]? = cursor.data[place]?) {later : List Operation}
    (keeps : KeepsOpen stop later cursor) : trace later (cursor.withData other) = trace later cursor := by
  induction later generalizing cursor with
  | nil => rfl
  | cons operation later ih =>
      obtain ⟨inside, keeps⟩ := keeps
      have before := bounded.limit_le (List.mem_append_left _ inside)
      have blind : operation.outcome (cursor.withData other) =
          ((operation.outcome cursor).1, (operation.outcome cursor).2.withData other) := by
        have hides : cursor.Hides other := ⟨size, fun place front => same place (Nat.lt_of_lt_of_le front before)⟩
        unfold outcome
        rw [operation.blind hides]
        cases operation.perform cursor <;> rfl
      have moves := operation.moves_outcome bounded
      have rest := ih (bounded.moves moves) (moves.data_eq ▸ size) (moves.data_eq ▸ same) keeps
      rw [trace, trace, blind]
      exact congrArg _ rest

end Reader

open Reader in
/-- What holds of the reader in a state: the bounds, and what follows from them for each operation and for all operations
behind which an extent stays open. -/
structure Cursor.Safe (cursor : Cursor) : Prop where
  bounded : cursor.Bounded
  /-- No slice is out of range. -/
  sliced (operation : Operation) : operation.sliced? cursor = some (operation.perform cursor)
  /-- A failure leaves the position and the extents, but for a closing, which gives up the innermost extent. -/
  unchanged (operation : Operation) {fault : Fault} {final : Cursor}
    (fails : operation.perform cursor = .error fault final) :
    final = if operation = .closeExtent then { cursor with limits := cursor.limits.tail } else cursor
  /-- The position does not pass the end of an extent that is skipped. -/
  skips {fault : Fault} {final : Cursor} (fails : skipExtent cursor = .error fault final) : cursor.limits = []
  /-- While an extent is open, nothing depends on the bytes behind its end. -/
  confined {stop : Nat} {other : Bytes} {later : List Operation} (size : other.size = cursor.data.size)
    (same : ∀ place, place < stop → other[place]? = cursor.data[place]?)
    (keeps : Operation.KeepsOpen stop later cursor) :
    Operation.trace later (cursor.withData other) = Operation.trace later cursor

namespace Reader

/-- Behind a bounded cursor every operation is safe. -/
theorem safe_of_bounded {cursor : Cursor} (bounded : cursor.Bounded) : cursor.Safe where
  bounded := bounded
  sliced := Operation.sliced?_eq bounded
  unchanged operation _ _ fails := (operation.ensures bounded).error fails
  skips fails := by
    cases found : cursor.limits with
    | nil => rfl
    | cons limit limits => cases (skipExtent_of_bounded bounded found).symm.trans fails
  confined size same keeps := Operation.trace_withData bounded size same keeps

/-- The reader is safe behind all operations on all data, whether they fail or not. -/
theorem safe_of_run (data : Bytes) (operations : List Operation) :
    (Operation.run operations { data }).data = data ∧ (Operation.run operations { data }).Safe := by
  obtain ⟨bounded, same⟩ := Operation.bounded_run (Cursor.Bounded.start data) operations
  exact ⟨same, safe_of_bounded bounded⟩

/-- Two of four bytes are in an extent. A number that goes on behind it is cut off at its end, behind a seek that is
refused and one that is not, and the extent is given up away from its end: all of it whatever the last two bytes are. -/
theorem safe_of_run_cut :
    let cursor := Operation.run [.openExtent 2, .word16, .seek 3, .seek 1] { data := #[0x80, 0x80, 0x01, 0x00] }
    Operation.trace [.leb, .byte, .peek 1, .seek 0, .closeExtent] (cursor.withData #[0x80, 0x80, 0xFF, 0xFF]) =
      [(.error { cause := .bytes (.truncatedLeb false 1) }, 1, [2]),
        (.ok (.number 0x80), 2, [2]),
        (.error { cause := .bytes (.endOfStream "byte array" 2) }, 2, [2]),
        (.ok .done, 0, [2]),
        (.error { cause := .bytes (.stoppedAt 2 0) }, 0, [])] := by
  intro cursor
  have size : (#[0x80, 0x80, 0xFF, 0xFF] : Bytes).size = cursor.data.size := rfl
  have same : ∀ place, place < 2 → (#[0x80, 0x80, 0xFF, 0xFF] : Bytes)[place]? = cursor.data[place]? := by decide
  have keeps : Operation.KeepsOpen 2 [.leb, .byte, .peek 1, .seek 0, .closeExtent] cursor := by decide
  have safe := (safe_of_run #[0x80, 0x80, 0x01, 0x00] [.openExtent 2, .word16, .seek 3, .seek 1]).2
  exact (safe.confined size same keeps).trans (by decide)

end Reader

end DexArsc
