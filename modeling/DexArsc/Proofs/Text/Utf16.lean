/-
Texts are read back from their code units. What is read of any code units has as many, and none of them is
zero when none was.
-/

import DexArsc.Text.Encoding

namespace DexArsc.Text

theorem isHighSurrogate_iff {unit : UInt16} :
    isHighSurrogate unit = true ↔ 0xD800 ≤ unit.toNat ∧ unit.toNat ≤ 0xDBFF := by
  simp [isHighSurrogate, UInt16.le_iff_toNat_le]

theorem isLowSurrogate_iff {unit : UInt16} :
    isLowSurrogate unit = true ↔ 0xDC00 ≤ unit.toNat ∧ unit.toNat ≤ 0xDFFF := by
  simp [isLowSurrogate, UInt16.le_iff_toNat_le]

theorem toNat_char {value : Nat} (valid : value.isValidChar) : (Char.ofNat value).toNat = value := by
  rw [Char.ofNat, dif_pos valid]
  rfl

/-- A character of one code unit. -/
theorem charUnits_of_lt {c : Char} (small : c.toNat < 0x10000) : charUnits c = [UInt16.ofNat c.toNat] := by
  rw [charUnits, if_pos small]

/-- A code unit that stands alone is the one of its character. -/
theorem charUnits_of_ofUnit? {unit : UInt16} {c : Char} (found : ofUnit? unit = some c) :
    charUnits c = [unit] := by
  have bound := unit.toNat_lt
  unfold ofUnit? at found
  split at found
  · cases found
  · rename_i alone
    rw [Bool.or_eq_true, isHighSurrogate_iff, isLowSurrogate_iff] at alone
    cases found
    have number : (Char.ofNat unit.toNat).toNat = unit.toNat := toNat_char (by
      change _ ∨ _
      omega)
    rw [charUnits_of_lt (by omega), number, UInt16.ofNat_toNat]

/-- A surrogate pair is the one of its character. -/
theorem charUnits_ofSurrogates {high low : UInt16} (first : isHighSurrogate high = true)
    (second : isLowSurrogate low = true) : charUnits (ofSurrogates high low) = [high, low] := by
  rw [isHighSurrogate_iff] at first
  rw [isLowSurrogate_iff] at second
  have number : (ofSurrogates high low).toNat =
      0x10000 + (high.toNat - 0xD800) * 0x400 + (low.toNat - 0xDC00) := toNat_char (by
    change _ ∨ _
    omega)
  have front : 0xD800 + ((ofSurrogates high low).toNat - 0x10000) / 0x400 = high.toNat := by omega
  have back : 0xDC00 + ((ofSurrogates high low).toNat - 0x10000) % 0x400 = low.toNat := by omega
  rw [charUnits, if_neg (by omega), front, back, UInt16.ofNat_toNat, UInt16.ofNat_toNat]

/-- No code unit is zero but that of the zero character. -/
theorem charUnits_ne_zero {c : Char} (some : c.toNat ≠ 0) : ∀ unit ∈ charUnits c, unit ≠ 0 := by
  have nonzero {value : Nat} (positive : value ≠ 0) (bound : value < 0x10000) : UInt16.ofNat value ≠ 0 := by
    rw [Ne, ← UInt16.toNat_inj, UInt16.toNat_ofNat', Nat.mod_eq_of_lt bound]
    exact positive
  have range := c.valid
  change c.toNat < 0xD800 ∨ 0xDFFF < c.toNat ∧ c.toNat < 0x110000 at range
  intro unit inside
  unfold charUnits at inside
  split at inside
  · rw [List.mem_singleton.1 inside]
    exact nonzero some (by omega)
  · rw [List.mem_cons, List.mem_singleton] at inside
    rcases inside with rfl | rfl
    · exact nonzero (by omega) (by omega)
    · exact nonzero (by omega) (by omega)

theorem ofUnitsOnto_eq (done : List (Option Char)) (units : List UInt16) :
    ofUnitsOnto done units = done.reverse ++ ofUnits units := by
  unfold ofUnits
  suffices ∀ done more : List (Option Char), ofUnitsOnto (done ++ more) units =
      more.reverse ++ ofUnitsOnto done units by
    simpa using this [] done
  intro done more
  induction done, units using ofUnitsOnto.induct with
  | case1 done => simp [ofUnitsOnto]
  | case2 done unit => simp [ofUnitsOnto]
  | case3 done unit next rest pair ih =>
      rw [ofUnitsOnto, ofUnitsOnto, if_pos pair, if_pos pair, ← ih, List.cons_append]
  | case4 done unit next rest alone ih =>
      rw [ofUnitsOnto, ofUnitsOnto, if_neg alone, if_neg alone, ← ih, List.cons_append]

theorem ofUnits_pair {high low : UInt16} (pair : (isHighSurrogate high && isLowSurrogate low) = true)
    (rest : List UInt16) : ofUnits (high :: low :: rest) = some (ofSurrogates high low) :: ofUnits rest := by
  rw [ofUnits, ofUnitsOnto, if_pos pair, ofUnitsOnto_eq]
  rfl

theorem ofUnits_single {unit : UInt16} {rest : List UInt16}
    (alone : ∀ next, rest.head? = some next → ¬(isHighSurrogate unit && isLowSurrogate next) = true) :
    ofUnits (unit :: rest) = ofUnit? unit :: ofUnits rest := by
  cases rest with
  | nil => rfl
  | cons next rest =>
      rw [ofUnits, ofUnitsOnto, if_neg (alone next rfl), ofUnitsOnto_eq]
      rfl

/-- A character is read back from its code units. -/
theorem ofUnits_charUnits_append (c : Char) (rest : List UInt16) :
    ofUnits (charUnits c ++ rest) = some c :: ofUnits rest := by
  have range := c.valid
  change c.toNat < 0xD800 ∨ 0xDFFF < c.toNat ∧ c.toNat < 0x110000 at range
  have unit {value : Nat} (bound : value < 0x10000) : (UInt16.ofNat value).toNat = value := by
    rw [UInt16.toNat_ofNat', Nat.mod_eq_of_lt bound]
  by_cases small : c.toNat < 0x10000
  · have number := unit small
    have high : ¬isHighSurrogate (UInt16.ofNat c.toNat) = true := by
      rw [isHighSurrogate_iff, number]
      omega
    have low : ¬isLowSurrogate (UInt16.ofNat c.toNat) = true := by
      rw [isLowSurrogate_iff, number]
      omega
    rw [charUnits_of_lt small, List.singleton_append, ofUnits_single (by simp [high])]
    congr 1
    rw [ofUnit?, if_neg (by simp [high, low]), number, Char.ofNat_toNat]
  · have first := @unit (0xD800 + (c.toNat - 0x10000) / 0x400) (by omega)
    have second := @unit (0xDC00 + (c.toNat - 0x10000) % 0x400) (by omega)
    rw [charUnits, if_neg small, List.cons_append, List.singleton_append, ofUnits_pair]
    · have number : 0x10000 + (0xD800 + (c.toNat - 0x10000) / 0x400 - 0xD800) * 0x400 +
          (0xDC00 + (c.toNat - 0x10000) % 0x400 - 0xDC00) = c.toNat := by omega
      rw [ofSurrogates, first, second, number, Char.ofNat_toNat]
    · rw [Bool.and_eq_true, isHighSurrogate_iff, isLowSurrogate_iff, first, second]
      omega

/-- The characters of a text are read back from its code units. -/
theorem ofUnits_units (text : String) : ofUnits (units text) = text.toList.map some := by
  unfold units
  induction text.toList with
  | nil => rfl
  | cons c rest ih => rw [List.flatMap_cons, ofUnits_charUnits_append, ih, List.map_cons]

/-- A row of characters is complete when each of them is there. -/
theorem mapM_id_eq_some {row : List (Option Char)} {chars : List Char} :
    row.mapM id = some chars ↔ row = chars.map some := by
  induction row generalizing chars with
  | nil =>
      rw [List.mapM_nil]
      cases chars <;> simp
  | cons first rest ih =>
      rw [List.mapM_cons]
      cases first with
      | none => cases chars <;> simp
      | some c =>
          cases chars with
          | nil => simp [Option.bind_eq_some_iff]
          | cons next chars =>
              simp only [id_eq, Option.pure_def, Option.bind_eq_bind, Option.bind_some, Option.bind_eq_some_iff,
                ih, Option.some.injEq, List.cons.injEq, List.map_cons]
              exact ⟨fun ⟨_, behind, same, tail⟩ => ⟨same, tail ▸ behind⟩,
                fun ⟨same, behind⟩ => ⟨chars, behind, same, rfl⟩⟩

/-- The number of code units of a text. -/
theorem unitCount_eq (text : String) : unitCount text = (units text).length := by
  have count (chars : List Char) (start : Nat) : chars.foldl (fun count c => count + (charUnits c).length) start =
      start + (chars.flatMap charUnits).length := by
    induction chars generalizing start with
    | nil => rfl
    | cons c rest ih => rw [List.foldl_cons, ih, List.flatMap_cons, List.length_append, Nat.add_assoc]
  rw [unitCount, String.foldl_eq_foldl_toList, count, Nat.zero_add, units]

/-- A text is read back from its code units. -/
theorem ofUtf16?_units (text : String) : ofUtf16? (units text) = some text := by
  rw [ofUtf16?, ofUnits_units, mapM_id_eq_some.2 rfl, Option.map_some, String.ofList_toList]

/-- Code units of a text are read back where single units may be broken. -/
theorem ofUtf16Lossy_units (text : String) : ofUtf16Lossy (units text) = text := by
  rw [ofUtf16Lossy, ofUnits_units, List.map_map]
  have image : (fun c : Option Char => c.getD replacement) ∘ some = id := rfl
  rw [image, List.map_id, String.ofList_toList]

/-- Code units spell characters, or nothing where a surrogate has no partner. -/
inductive Spells : List UInt16 → List (Option Char) → Prop
  | nil : Spells [] []
  | char {c : Char} {first units : List UInt16} {chars : List (Option Char)} (same : charUnits c = first)
    (behind : Spells units chars) : Spells (first ++ units) (some c :: chars)
  | lone {unit : UInt16} {units : List UInt16} {chars : List (Option Char)} (some : unit ≠ 0)
    (behind : Spells units chars) : Spells (unit :: units) (none :: chars)

theorem Spells.single {unit : UInt16} {units : List UInt16} {chars : List (Option Char)}
    (behind : Spells units chars) : Spells (unit :: units) (ofUnit? unit :: chars) := by
  cases found : ofUnit? unit with
  | some c => exact .char (charUnits_of_ofUnit? found) behind
  | none =>
      refine .lone ?_ behind
      rintro rfl
      cases found

/-- Code units spell the characters that are read of them. -/
theorem spells_ofUnits (units : List UInt16) : Spells units (ofUnits units) := by
  generalize ([] : List (Option Char)) = done
  induction done, units using ofUnitsOnto.induct with
  | case1 => exact .nil
  | case2 done unit => exact .single .nil
  | case3 done unit next rest pair ih =>
      rw [ofUnits_pair pair]
      rw [Bool.and_eq_true] at pair
      exact .char (charUnits_ofSurrogates pair.1 pair.2) ih
  | case4 done unit next rest alone ih =>
      rw [ofUnits_single (by rintro _ ⟨⟩; exact alone)]
      exact .single ih

theorem units_ofUtf16Lossy (row : List UInt16) :
    units (ofUtf16Lossy row) = (ofUnits row).flatMap fun c => charUnits (c.getD replacement) := by
  rw [units, ofUtf16Lossy, String.toList_ofList, List.flatMap_map]

/-- What is read of code units has as many. -/
theorem length_units_ofUtf16Lossy (row : List UInt16) : (units (ofUtf16Lossy row)).length = row.length := by
  rw [units_ofUtf16Lossy]
  have spells := spells_ofUnits row
  generalize ofUnits row = chars at spells
  induction spells with
  | nil => rfl
  | char same behind ih =>
      rw [List.flatMap_cons, List.length_append, List.length_append, ih, Option.getD_some, same]
  | lone some behind ih =>
      rw [List.flatMap_cons, List.length_append, ih, Nat.add_comm]
      rfl

/-- What is read of code units without a zero has none. -/
theorem units_ofUtf16Lossy_ne_zero {row : List UInt16} (nonzero : ∀ unit ∈ row, unit ≠ 0) :
    ∀ unit ∈ units (ofUtf16Lossy row), unit ≠ 0 := by
  rw [units_ofUtf16Lossy]
  have spells := spells_ofUnits row
  generalize ofUnits row = chars at spells
  induction spells with
  | nil => simp
  | char same behind ih =>
      intro unit inside
      rw [List.flatMap_cons, Option.getD_some, same, List.mem_append] at inside
      rcases inside with inside | inside
      · exact nonzero unit (List.mem_append_left _ inside)
      · exact ih (fun unit inside => nonzero unit (List.mem_append_right _ inside)) unit inside
  | lone some behind ih =>
      intro unit inside
      rw [List.flatMap_cons, List.mem_append] at inside
      rcases inside with inside | inside
      · exact charUnits_ne_zero (by decide) unit inside
      · exact ih (fun unit inside => nonzero unit (List.mem_cons_of_mem _ inside)) unit inside

/-- Code units that are a text are the ones of that text. -/
theorem units_of_ofUtf16? {row : List UInt16} {text : String} (found : ofUtf16? row = some text) :
    units text = row ∧ ofUtf16Lossy row = text := by
  obtain ⟨chars, all, rfl⟩ := Option.map_eq_some_iff.1 found
  have same := mapM_id_eq_some.1 all
  have text : ofUtf16Lossy row = String.ofList chars := by
    rw [ofUtf16Lossy, same, List.map_map]
    congr 1
    exact List.map_id chars
  refine ⟨?_, text⟩
  rw [units, String.toList_ofList]
  have spells := spells_ofUnits row
  rw [same] at spells
  clear found text same all
  induction chars generalizing row with
  | nil =>
      cases spells
      rfl
  | cons c rest ih =>
      rw [List.map_cons] at spells
      cases spells with
      | char first behind => rw [List.flatMap_cons, first, ih behind]

end DexArsc.Text
