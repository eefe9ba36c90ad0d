/-
The map of a string pool to the first indexes of its strings. It grows with every string that is appended and is
computed anew when one is replaced, and it always tells the first index of each string. The chunk that a pool was read
from is written again until a string is added or changed.
-/

import DexArsc.Proofs.Resource.PoolWritten
import DexArsc.Proofs.Resource.StringPool

namespace DexArsc.Resource.IndexedPool

variable {indexed final : IndexedPool} {text other : String} {index : UInt32}

/-- Strings that are listed from a place on have the indexes that are known before, or those of their first places. -/
theorem getElem?_foldl_insertIfNew (strings : List String) (start : Nat) (known : Std.HashMap String UInt32)
    (text : String) :
    ((strings.zipIdx start).foldl (fun firsts (text, place) => firsts.insertIfNew text (UInt32.ofNat place))
      known)[text]? =
      known[text]?.or ((strings.findIdx? (· == text)).map fun place => UInt32.ofNat (start + place)) := by
  induction strings generalizing start known with
  | nil => simp
  | cons first rest ih =>
      rw [List.zipIdx_cons, List.foldl_cons, ih, Std.HashMap.getElem?_insertIfNew, List.findIdx?_cons]
      by_cases same : first = text
      · subst same
        have known_iff : first ∈ known ↔ known[first]?.isSome = true := Std.HashMap.mem_iff_isSome_getElem?
        cases found : known[first]? <;> simp [known_iff, found]
      · have shift : ((fun place => UInt32.ofNat (start + place)) ∘ fun place => place + 1) =
            fun place => UInt32.ofNat (start + 1 + place) := by
          funext place
          simp only [Function.comp_apply]
          rw [Nat.add_assoc, Nat.add_comm 1]
        rw [if_neg (by simp [same]), if_neg (by simpa using same), Option.map_map, shift]

theorem getElem?_firstIndexes (strings : Array String) (text : String) :
    (firstIndexes strings)[text]? = (strings.findIdx? (· == text)).map UInt32.ofNat := by
  obtain ⟨strings⟩ := strings
  rw [firstIndexes, getElem?_foldl_insertIfNew, List.findIdx?_toArray]
  simp only [Nat.zero_add, Std.HashMap.getElem?_empty, Option.none_or]

/-- The map tells the first index of each string of the pool. -/
def Current (indexed : IndexedPool) : Prop :=
  ∀ text, indexed.indexOf? text = indexed.pool.indexOf? text

theorem current_firstIndexes (pool : StringPool) : Current { pool, firsts := firstIndexes pool.strings } :=
  getElem?_firstIndexes pool.strings

theorem current_empty (form : StringForm) : (empty form).Current := fun text => by
  simp [indexOf?, StringPool.indexOf?, empty, StringPool.empty]

/-- A string is added to the pool and to the map. -/
def push (indexed : IndexedPool) (text : String) : IndexedPool where
  pool := indexed.pool.withStrings (indexed.pool.strings.push text)
  firsts := indexed.firsts.insert text (UInt32.ofNat indexed.pool.size)

/-- The string at an index is another one, and the map is computed anew. -/
def replace (indexed : IndexedPool) (index : UInt32) (text : String) : IndexedPool where
  pool := indexed.pool.withStrings (indexed.pool.strings.setIfInBounds index.toNat text)
  firsts := firstIndexes (indexed.pool.strings.setIfInBounds index.toNat text)

theorem Current.push (current : indexed.Current) (absent : indexed.indexOf? text = none) :
    (indexed.push text).Current := fun other => by
  have before := current other
  unfold indexOf? StringPool.indexOf? at before
  change (indexed.firsts.insert text (UInt32.ofNat indexed.pool.size))[other]? =
    ((indexed.pool.strings.push text).findIdx? (· == other)).map UInt32.ofNat
  rw [Std.HashMap.getElem?_insert, Array.findIdx?_push, before]
  by_cases same : text = other
  · subst same
    have missing := Option.map_eq_none_iff.1 ((current text).symm.trans absent)
    simp [missing, StringPool.size]
  · simp [same]

theorem current_replace (indexed : IndexedPool) (index : UInt32) (text : String) :
    (indexed.replace index text).Current :=
  current_firstIndexes _

/-- A string has the index of its first place. -/
theorem Current.indexOf?_eq_some (current : indexed.Current) :
    indexed.indexOf? text = some index ↔ ∃ place, index = UInt32.ofNat place ∧
      indexed.pool.strings[place]? = some text ∧
      ∀ earlier, earlier < place → indexed.pool.strings[earlier]? ≠ some text := by
  rw [current, StringPool.indexOf?, Option.map_eq_some_iff]
  refine exists_congr fun place => ?_
  rw [Array.findIdx?_eq_some_iff_getElem]
  constructor
  · rintro ⟨⟨inside, same, none⟩, rfl⟩
    refine ⟨rfl, by rw [Array.getElem?_eq_getElem inside, eq_of_beq same], fun earlier before there => ?_⟩
    obtain ⟨_, equal⟩ := Array.getElem?_eq_some_iff.1 there
    exact none earlier before (by simp [equal])
  · rintro ⟨rfl, here, none⟩
    obtain ⟨inside, equal⟩ := Array.getElem?_eq_some_iff.1 here
    refine ⟨⟨inside, by simp [equal], fun earlier before same => none earlier before ?_⟩, rfl⟩
    rw [Array.getElem?_eq_getElem (by omega), eq_of_beq same]

/-- In a pool whose places all have indexes of their own, a string has its smallest index. -/
theorem Current.indexOf?_eq_some_smallest (current : indexed.Current) (small : indexed.pool.size ≤ UInt32.size) :
    indexed.indexOf? text = some index ↔
      indexed.pool.get? index = some text ∧ ∀ earlier, earlier < index → indexed.pool.get? earlier ≠ some text := by
  rw [current.indexOf?_eq_some]
  constructor
  · rintro ⟨place, rfl, here, none⟩
    have inside : place < indexed.pool.size := (Array.getElem?_eq_some_iff.1 here).1
    have exact : (UInt32.ofNat place).toNat = place := UInt32.toNat_ofNat_of_lt' (by omega)
    refine ⟨by rw [StringPool.get?, exact, here], fun earlier before => none earlier.toNat ?_⟩
    rwa [UInt32.lt_iff_toNat_lt, exact] at before
  · rintro ⟨here, none⟩
    refine ⟨index.toNat, UInt32.ofNat_toNat.symm, here, fun earlier before => ?_⟩
    have exact : (UInt32.ofNat earlier).toNat = earlier :=
      UInt32.toNat_ofNat_of_lt' (Nat.lt_trans before index.toNat_lt)
    have apart := none (UInt32.ofNat earlier) (by rwa [UInt32.lt_iff_toNat_lt, exact])
    rwa [StringPool.get?, exact] at apart

/-- A string without an index does not occur. -/
theorem Current.indexOf?_eq_none (current : indexed.Current) :
    indexed.indexOf? text = none ↔ text ∉ indexed.pool.strings := by
  rw [current, StringPool.indexOf?, Option.map_eq_none_iff, Array.findIdx?_eq_none_iff]
  simp only [beq_eq_false_iff_ne, ne_eq]
  exact ⟨fun none inside => none text inside rfl, fun absent other inside same => absent (same ▸ inside)⟩

theorem intern_of_some (found : indexed.indexOf? text = some index) : intern text indexed = .ok index indexed := by
  unfold intern
  rw [Step.bind_ok (Step.get_apply _)]
  simp only [found]
  rfl

theorem intern_of_none (absent : indexed.indexOf? text = none) (fits : indexed.pool.form.check text = .ok ()) :
    intern text indexed = .ok (UInt32.ofNat indexed.pool.size) (indexed.push text) := by
  unfold intern
  rw [Step.bind_ok (Step.get_apply _)]
  simp only [absent]
  rw [Step.bind_ok (Step.get_apply _), fits]
  rfl

theorem intern_of_error (absent : indexed.indexOf? text = none) {fault : Fault}
    (refused : indexed.pool.form.check text = .error fault) : intern text indexed = .error fault indexed := by
  unfold intern
  rw [Step.bind_ok (Step.get_apply _)]
  simp only [absent]
  rw [Step.bind_ok (Step.get_apply _), refused]
  rfl

theorem set_of_beyond (beyond : indexed.pool.size ≤ index.toNat) (text : String) : set index text indexed =
    .error { cause := .resource (.stringBeyond index.toNat indexed.pool.size) } indexed := by
  unfold set
  rw [Step.bind_ok (Step.get_apply _), Step.guard_apply, if_pos beyond]

theorem set_of_error (within : index.toNat < indexed.pool.size) {fault : Fault}
    (refused : indexed.pool.form.check text = .error fault) : set index text indexed = .error fault indexed := by
  unfold set
  rw [Step.bind_ok (Step.get_apply _), Step.guard_apply, if_neg (Nat.not_le.2 within), refused]
  rfl

theorem set_of_same (fits : indexed.pool.form.check text = .ok ()) (same : indexed.pool.get? index = some text) :
    set index text indexed = .ok () indexed := by
  have within : index.toNat < indexed.pool.size := (Array.getElem?_eq_some_iff.1 same).1
  unfold set
  rw [Step.bind_ok (Step.get_apply _), Step.guard_apply, if_neg (Nat.not_le.2 within), fits]
  simp only [same, if_true]
  rfl

theorem set_of_other (within : index.toNat < indexed.pool.size) (fits : indexed.pool.form.check text = .ok ())
    (apart : indexed.pool.get? index ≠ some text) : set index text indexed = .ok () (indexed.replace index text) := by
  unfold set
  rw [Step.bind_ok (Step.get_apply _), Step.guard_apply, if_neg (Nat.not_le.2 within), fits]
  simp only [apart, if_false]
  rfl

/-- Where a step ends, without the map. -/
def forget {α : Type} : EStateM.Result Fault IndexedPool α → Except Fault (α × StringPool)
  | .ok value final => .ok (value, final.pool)
  | .error fault _ => .error fault

/-- A pool with a map interns a string as the pool alone does. -/
theorem forget_intern (current : indexed.Current) (text : String) :
    forget (intern text indexed) = indexed.pool.intern text := by
  have same := current text
  unfold StringPool.intern
  cases found : indexed.indexOf? text with
  | some index =>
      rw [intern_of_some found, ← same, found]
      rfl
  | none =>
      rw [← same, found]
      cases fits : indexed.pool.form.check text with
      | ok done =>
          rw [intern_of_none found fits]
          rfl
      | error fault =>
          rw [intern_of_error found fits]
          rfl

/-- A pool with a map replaces a string as the pool alone does. -/
theorem forget_set (indexed : IndexedPool) (index : UInt32) (text : String) :
    forget (set index text indexed) = (indexed.pool.set index text).map ((), ·) := by
  unfold StringPool.set
  by_cases within : index.toNat < indexed.pool.size
  · rw [if_neg (Nat.not_le.2 within)]
    cases fits : indexed.pool.form.check text with
    | error fault =>
        rw [set_of_error within fits]
        rfl
    | ok done =>
        by_cases same : indexed.pool.get? index = some text
        · rw [set_of_same fits same]
          simp only [same, if_true]
          rfl
        · rw [set_of_other within fits same]
          simp only [same, if_false]
          rfl
  · rw [if_pos (Nat.not_lt.1 within), set_of_beyond (Nat.not_lt.1 within)]
    rfl

/-- The calls that can change a pool. -/
inductive Call
  | intern (text : String)
  | set (index : UInt32) (text : String)

/-- The step of a call, without its result. -/
def Call.step : Call → Step IndexedPool Unit
  | intern text => do let _ ← IndexedPool.intern text
  | set index text => IndexedPool.set index text

/-- The bytes of the chunk at the start of data, of the size that its header declares. -/
def chunkAt (data : Bytes) : List UInt8 :=
  data.toList.take (Bytes.word data.toList 4).toNat

/-- The pools that calls reach from a new pool or from one that is read, whether they succeed or fail, with the chunk
that such a pool was read from until a call changes its strings. -/
inductive Reached : IndexedPool → Option (List UInt8) → Prop
  | empty (form : StringForm) : Reached (.empty form) none
  | read {data : Bytes} {indexed : IndexedPool} (run : IndexedPool.read data = .ok indexed) :
      Reached indexed (some (chunkAt data))
  | call {indexed final : IndexedPool} {origin : Option (List UInt8)} (call : Call) (reached : Reached indexed origin)
      (ends : call.step.Ends indexed final) :
      Reached final (if final.pool.strings = indexed.pool.strings then origin else none)

/-- A call leaves the pool, with or without a failure, or it gives it other strings and a map of them. -/
theorem Call.step_cases (current : indexed.Current) (call : Call) :
    (∃ fault, call.step indexed = .error fault indexed) ∨ call.step indexed = .ok () indexed ∨
      ∃ final, call.step indexed = .ok () final ∧ final.Current ∧ final.pool.modified = true ∧
        final.pool.strings ≠ indexed.pool.strings := by
  cases call with
  | intern text =>
      simp only [step]
      cases found : indexed.indexOf? text with
      | some index => exact .inr (.inl (Step.bind_ok (intern_of_some found)))
      | none =>
          cases fits : indexed.pool.form.check text with
          | error fault => exact .inl ⟨fault, by rw [Step.bind_apply, intern_of_error found fits]⟩
          | ok done =>
              refine .inr (.inr ⟨_, Step.bind_ok (intern_of_none found fits), current.push found, rfl, fun same => ?_⟩)
              have size := congrArg Array.size same
              simp [push, StringPool.withStrings] at size
  | set index text =>
      simp only [step]
      by_cases within : index.toNat < indexed.pool.size
      · cases fits : indexed.pool.form.check text with
        | error fault => exact .inl ⟨fault, set_of_error within fits⟩
        | ok done =>
            by_cases equal : indexed.pool.get? index = some text
            · exact .inr (.inl (set_of_same fits equal))
            · refine .inr (.inr ⟨_, set_of_other within fits equal, indexed.current_replace index text, rfl,
                fun same => equal ?_⟩)
              rw [StringPool.get?, ← same]
              exact Array.getElem?_setIfInBounds_self_of_lt within
      · exact .inl ⟨_, set_of_beyond (Nat.not_lt.1 within) text⟩

/-- The map is that of the strings, and the chunk that the pool was read from is kept until the strings change. -/
structure Kept (indexed : IndexedPool) (origin : Option (List UInt8)) : Prop where
  current : indexed.Current
  unmodified : ∀ bytes, origin = some bytes → indexed.pool.modified = false ∧ indexed.pool.source = bytes
  modified : origin = none → indexed.pool.modified = true

theorem Kept.read {data : Bytes} (run : IndexedPool.read data = .ok indexed) : indexed.Kept (some (chunkAt data)) := by
  obtain ⟨pool, read, made⟩ := Except.bind_eq_ok.1 run
  cases made
  obtain ⟨header, fields, offsets, spelled⟩ := StringPool.read_eq_ok.1 read
  obtain ⟨_, whole, _⟩ := ChunkHeader.read_eq_ok.1 spelled.head
  have stop : header.stop = (Bytes.word data.toList 4).toNat := by
    rw [whole, ChunkHeader.stop, ChunkHeader.start_ofBytes, Nat.zero_add]
    rfl
  refine ⟨current_firstIndexes pool, fun bytes same => ?_, fun none => (by cases none)⟩
  cases same
  refine ⟨spelled.modified, ?_⟩
  rw [spelled.source, stop, Array.toList_extract, List.extract_eq_take_drop, List.drop_zero, Nat.sub_zero, chunkAt]

theorem Kept.call {origin : Option (List UInt8)} (kept : indexed.Kept origin) (call : Call)
    (ends : call.step.Ends indexed final) :
    final.Kept (if final.pool.strings = indexed.pool.strings then origin else none) := by
  have unchanged (same : final = indexed) :
      final.Kept (if final.pool.strings = indexed.pool.strings then origin else none) := by
    subst same
    rwa [if_pos rfl]
  rcases call.step_cases kept.current with ⟨fault, run⟩ | run | ⟨image, run, current, modified, apart⟩
  · rcases ends with ⟨_, other⟩ | ⟨_, other⟩
    · cases run.symm.trans other
    · exact unchanged (EStateM.Result.error.inj (run.symm.trans other)).2.symm
  · rcases ends with ⟨_, other⟩ | ⟨_, other⟩
    · exact unchanged (EStateM.Result.ok.inj (run.symm.trans other)).2.symm
    · cases run.symm.trans other
  · rcases ends with ⟨_, other⟩ | ⟨_, other⟩
    · cases run.symm.trans other
      rw [if_neg apart]
      exact ⟨current, fun _ same => (by cases same), fun _ => modified⟩
    · cases run.symm.trans other

theorem Reached.kept {origin : Option (List UInt8)} (reached : indexed.Reached origin) : indexed.Kept origin := by
  induction reached with
  | empty form => exact ⟨current_empty form, fun _ same => (by cases same), fun _ => rfl⟩
  | read run => exact .read run
  | call call _ ends ih => exact ih.call call ends

/-- A text has the index of its first place, and none when it does not occur. In a pool whose places all have indexes
of their own this is the smallest index of the text. -/
structure Finds (indexed : IndexedPool) (text : String) : Prop where
  first : ∀ index, indexed.indexOf? text = some index ↔ ∃ place, index = UInt32.ofNat place ∧
    indexed.pool.strings[place]? = some text ∧
    ∀ earlier, earlier < place → indexed.pool.strings[earlier]? ≠ some text
  smallest : indexed.pool.size ≤ UInt32.size → ∀ index, indexed.indexOf? text = some index ↔
    indexed.pool.get? index = some text ∧ ∀ earlier, earlier < index → indexed.pool.get? earlier ≠ some text
  absent : indexed.indexOf? text = none ↔ text ∉ indexed.pool.strings

/-- A text that occurs is found, and another one is appended when its form allows it. -/
structure Interns (indexed : IndexedPool) (text : String) : Prop where
  found : text ∈ indexed.pool.strings →
    ∃ index, indexed.indexOf? text = some index ∧ intern text indexed = .ok index indexed
  appended : text ∉ indexed.pool.strings → indexed.pool.form.check text = .ok () →
    ∃ final, intern text indexed = .ok (UInt32.ofNat indexed.pool.size) final ∧
      final.pool.strings = indexed.pool.strings.push text
  refused : text ∉ indexed.pool.strings → ∀ fault, indexed.pool.form.check text = .error fault →
    intern text indexed = .error fault indexed
  named : ∀ index final, intern text indexed = .ok index final →
    final.pool.Names index text ∧ (final.pool.size ≤ UInt32.size → final.pool.get? index = some text)
  occurs : ∀ index final, intern text indexed = .ok index final → ∀ other, final.pool.strings.count other =
    if other = text then max 1 (indexed.pool.strings.count text) else indexed.pool.strings.count other
  stays : ∀ index final, intern text indexed = .ok index final →
    (∀ place, place < indexed.pool.size → final.pool.strings[place]? = indexed.pool.strings[place]?) ∧
    ∀ other, other ≠ text → final.indexOf? other = indexed.indexOf? other

/-- The string at an index of the pool is another one afterwards, and all other places have the strings that they
had. -/
structure Sets (indexed : IndexedPool) (index : UInt32) (text : String) : Prop where
  beyond : indexed.pool.size ≤ index.toNat → set index text indexed =
    .error { cause := .resource (.stringBeyond index.toNat indexed.pool.size) } indexed
  refused : index.toNat < indexed.pool.size → ∀ fault, indexed.pool.form.check text = .error fault →
    set index text indexed = .error fault indexed
  same : indexed.pool.form.check text = .ok () → indexed.pool.get? index = some text →
    set index text indexed = .ok () indexed
  replaced : index.toNat < indexed.pool.size → indexed.pool.form.check text = .ok () →
    ∃ final, set index text indexed = .ok () final ∧ final.pool.size = indexed.pool.size ∧
      final.pool.get? index = some text ∧
      ∀ place, place ≠ index.toNat → final.pool.strings[place]? = indexed.pool.strings[place]?

/-- Lookups, calls and the chunk of a pool that calls reach. -/
structure Answers (indexed : IndexedPool) (origin : Option (List UInt8)) : Prop where
  finds : ∀ text, indexed.Finds text
  interns : ∀ text, indexed.Interns text
  interned : ∀ text, forget (intern text indexed) = indexed.pool.intern text
  sets : ∀ index text, indexed.Sets index text
  replaced : ∀ index text, forget (set index text indexed) = (indexed.pool.set index text).map ((), ·)
  failed : ∀ (call : Call) fault final, call.step indexed = .error fault final → final = indexed
  unchanged : ∀ bytes, origin = some bytes → indexed.pool.toChunk = bytes
  changed : origin = none → indexed.pool.toChunk = indexed.pool.encodeNew

theorem Current.finds (current : indexed.Current) (text : String) : indexed.Finds text where
  first _ := current.indexOf?_eq_some
  smallest small _ := current.indexOf?_eq_some_smallest small
  absent := current.indexOf?_eq_none

/-- A text that has an index is found, and the pool stays as it is. -/
theorem Current.interns_of_some (current : indexed.Current) (found : indexed.indexOf? text = some index) :
    indexed.Interns text := by
  obtain ⟨place, same, here, none⟩ := current.indexOf?_eq_some.1 found
  have present : text ∈ indexed.pool.strings := Array.mem_of_getElem? here
  have ends {other : UInt32} {final : IndexedPool} (run : intern text indexed = .ok other final) :
      other = index ∧ final = indexed := by
    cases (intern_of_some found).symm.trans run
    exact ⟨rfl, rfl⟩
  refine ⟨fun _ => ⟨index, found, intern_of_some found⟩, fun absent => (absent present).elim,
    fun absent => (absent present).elim, fun other final run => ?_, fun other final run text' => ?_,
    fun other final run => ?_⟩
  · obtain ⟨rfl, rfl⟩ := ends run
    have names : final.pool.Names other text := ⟨place, here, same⟩
    exact ⟨names, names.get?⟩
  · obtain ⟨-, rfl⟩ := ends run
    split
    · rename_i equal
      rw [equal, Nat.max_eq_right (Array.count_pos_iff.2 present)]
    · rfl
  · obtain ⟨-, rfl⟩ := ends run
    exact ⟨fun _ _ => rfl, fun _ _ => rfl⟩

/-- A text that has no index is appended when its form allows it. -/
theorem Current.interns_of_none (current : indexed.Current) (missing : indexed.indexOf? text = none) :
    indexed.Interns text := by
  have absent := current.indexOf?_eq_none.1 missing
  have ends {index : UInt32} {final : IndexedPool} (run : intern text indexed = .ok index final) :
      index = UInt32.ofNat indexed.pool.size ∧ final = indexed.push text := by
    cases fits : indexed.pool.form.check text with
    | ok done =>
        cases (intern_of_none missing fits).symm.trans run
        exact ⟨rfl, rfl⟩
    | error fault => cases (intern_of_error missing fits).symm.trans run
  refine ⟨fun present => (absent present).elim, fun _ fits => ⟨_, intern_of_none missing fits, rfl⟩,
    fun _ _ refused => intern_of_error missing refused, fun index final run => ?_, fun index final run other => ?_,
    fun index final run => ?_⟩
  · obtain ⟨rfl, rfl⟩ := ends run
    have names : (indexed.push text).pool.Names (UInt32.ofNat indexed.pool.size) text :=
      ⟨indexed.pool.size, Array.getElem?_push_size, rfl⟩
    exact ⟨names, names.get?⟩
  · obtain ⟨-, rfl⟩ := ends run
    change (indexed.pool.strings.push text).count other = _
    rw [Array.count_push]
    by_cases same : other = text
    · subst same
      rw [if_pos rfl, Array.count_eq_zero.2 absent, if_pos (beq_self_eq_true other)]
      rfl
    · rw [if_neg same, if_neg (by simpa using Ne.symm same), Nat.add_zero]
  · obtain ⟨-, rfl⟩ := ends run
    refine ⟨fun place inside => ?_, fun other apart => ?_⟩
    · exact Array.getElem?_push_lt inside |>.trans (Array.getElem?_eq_getElem inside).symm
    · change (indexed.firsts.insert text (UInt32.ofNat indexed.pool.size))[other]? = indexed.firsts[other]?
      rw [Std.HashMap.getElem?_insert, if_neg (by simpa using Ne.symm apart)]

theorem Current.interns (current : indexed.Current) (text : String) : indexed.Interns text := by
  cases found : indexed.indexOf? text with
  | some index => exact current.interns_of_some found
  | none => exact current.interns_of_none found

theorem sets (indexed : IndexedPool) (index : UInt32) (text : String) : indexed.Sets index text where
  beyond size := set_of_beyond size text
  refused within _ error := set_of_error within error
  same fits same := set_of_same fits same
  replaced within fits := by
    by_cases same : indexed.pool.get? index = some text
    · exact ⟨indexed, set_of_same fits same, rfl, same, fun _ _ => rfl⟩
    · refine ⟨_, set_of_other within fits same, Array.size_setIfInBounds, ?_, fun place apart => ?_⟩
      · exact Array.getElem?_setIfInBounds_self_of_lt within
      · exact Array.getElem?_setIfInBounds_ne apart.symm

/-- In every pool that calls reach, a string is found at its first index, interning appends a string that the pool
lacks and no other one, replacing changes one string, failures change nothing, and the chunk is the one that was read
until a call changes the strings. -/
theorem lookups_of_reached {origin : Option (List UInt8)} (reached : indexed.Reached origin) :
    indexed.Answers origin where
  finds := reached.kept.current.finds
  interns := reached.kept.current.interns
  interned := forget_intern reached.kept.current
  sets := indexed.sets
  replaced := forget_set indexed
  failed call fault final run := by
    rcases call.step_cases reached.kept.current with ⟨_, other⟩ | other | ⟨_, other, _⟩
    · exact (EStateM.Result.error.inj (run.symm.trans other)).2
    · cases run.symm.trans other
    · cases run.symm.trans other
  unchanged bytes same := by
    obtain ⟨unmodified, source⟩ := reached.kept.unmodified bytes same
    rw [StringPool.toChunk, unmodified, source]
    rfl
  changed none := by
    rw [StringPool.toChunk, reached.kept.modified none]
    rfl

/-- A pool that has one string twice. -/
def twice : StringPool where
  flags := 0
  strings := #["b", "b"]
  modified := true

/-- A string that stands at two places is found at the second one after the first one is replaced. -/
theorem lookups_of_reached_twice : ∃ indexed,
    IndexedPool.read twice.toChunk.toArray = .ok indexed ∧ indexed.Answers (some (chunkAt twice.toChunk.toArray)) ∧
      indexed.indexOf? "b" = some 0 ∧ set 0 "a" indexed = .ok () (indexed.replace 0 "a") ∧
        (indexed.replace 0 "a").Answers none ∧ (indexed.replace 0 "a").indexOf? "b" = some 1 := by
  have encodable : twice.Encodable := ⟨rfl, by decide, by decide, by
    simp only [StringForm.check, Text.unitCount_eq]
    decide +kernel⟩
  have small : twice.toChunk.length < UInt32.size := by
    simp only [StringPool.toChunk, StringPool.encodeNew, StringPool.stringArea, StringForm.encode, Text.unitCount_eq]
    decide +kernel
  have fits : twice.stored.form.check "a" = .ok () := by
    simp only [StringForm.check, Text.unitCount_eq]
    decide +kernel
  obtain ⟨indexed, read, pool⟩ : ∃ indexed, IndexedPool.read twice.toChunk.toArray = .ok indexed ∧
      indexed.pool = twice.stored := by
    rw [IndexedPool.read, encodable.read small]
    exact ⟨_, rfl, rfl⟩
  have set : set 0 "a" indexed = .ok () (indexed.replace 0 "a") := by
    refine set_of_other ?_ (pool ▸ fits) ?_ <;> rw [pool] <;> decide
  have before := Reached.read read
  have behind := Reached.call (.set 0 "a") before (.inl ⟨(), set⟩)
  rw [if_neg (by rw [replace, pool]; decide)] at behind
  refine ⟨indexed, read, lookups_of_reached before, ?_, set, lookups_of_reached behind, ?_⟩
  · rw [before.kept.current, pool]
    decide +kernel
  · rw [behind.kept.current, replace, pool]
    decide +kernel

end DexArsc.Resource.IndexedPool
