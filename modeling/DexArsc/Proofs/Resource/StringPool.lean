/-
String pools that grow. A string that is added to a pool stands behind all strings that the pool has, and
an index of the pool names the string that it named before.
-/

import DexArsc.Proofs.Leads
import DexArsc.Resource.Table

namespace DexArsc.Resource.StringPool

variable {pool image third : StringPool} {text : String} {index : UInt32}

/-- A pool has the strings of another one at their places, and perhaps more strings behind them. -/
structure Extends (pool image : StringPool) : Prop where
  strings : pool.strings.toList <+: image.strings.toList
  form : image.form = pool.form
  styles : image.styleOffsets = pool.styleOffsets ∧ image.styleData = pool.styleData
  checked : ∀ text ∈ image.strings, text ∈ pool.strings ∨ pool.form.check text = .ok ()
  written : image = pool ∨ image.modified = true

namespace Extends

theorem refl (pool : StringPool) : pool.Extends pool where
  strings := List.prefix_rfl
  form := rfl
  styles := ⟨rfl, rfl⟩
  checked _ inside := .inl inside
  written := .inl rfl

theorem trans (before : pool.Extends image) (behind : image.Extends third) : pool.Extends third where
  strings := before.strings.trans behind.strings
  form := behind.form.trans before.form
  styles := ⟨behind.styles.1.trans before.styles.1, behind.styles.2.trans before.styles.2⟩
  checked text inside := by
    rcases behind.checked text inside with old | fits
    · exact before.checked text old
    · exact .inr (before.form ▸ fits)
  written := by
    rcases behind.written with rfl | modified
    · exact before.written
    · exact .inr modified

theorem getElem? (grows : pool.Extends image) {place : Nat} (found : pool.strings[place]? = some text) :
    image.strings[place]? = some text := by
  rw [← Array.getElem?_toList] at found ⊢
  obtain ⟨more, whole⟩ := grows.strings
  rw [← whole, List.getElem?_append_left (List.getElem?_eq_some_iff.1 found).1, found]

end Extends

/-- An index is that of a place with a text. The index of a place is a 32-bit number. -/
def Names (pool : StringPool) (index : UInt32) (text : String) : Prop :=
  ∃ place, pool.strings[place]? = some text ∧ index = UInt32.ofNat place

theorem Names.extends (names : pool.Names index text) (grows : pool.Extends image) : image.Names index text := by
  obtain ⟨place, found, same⟩ := names
  exact ⟨place, grows.getElem? found, same⟩

/-- In a pool whose places all have indexes of their own, an index names the text at its place. -/
theorem Names.get? (names : pool.Names index text) (small : pool.size ≤ UInt32.size) :
    pool.get? index = some text := by
  obtain ⟨place, found, rfl⟩ := names
  have bound : place < pool.size := by
    obtain ⟨inside, _⟩ := Array.getElem?_eq_some_iff.1 found
    exact inside
  rw [StringPool.get?, UInt32.toNat_ofNat_of_lt' (Nat.lt_of_lt_of_le bound small), found]

theorem utf8Flag_withStrings (pool : StringPool) (strings : Array String) :
    (pool.withStrings strings).form = pool.form := by
  unfold form withStrings
  have same : pool.flags &&& ~~~sortedFlag &&& utf8Flag = pool.flags &&& utf8Flag := by
    have mask : ~~~sortedFlag &&& utf8Flag = utf8Flag := by decide
    rw [UInt32.and_assoc, mask]
  rw [same]

theorem extends_push (fits : pool.form.check text = .ok ()) :
    pool.Extends (pool.withStrings (pool.strings.push text)) where
  strings := by
    change pool.strings.toList <+: (pool.strings.push text).toList
    rw [Array.toList_push]
    exact List.prefix_append ..
  form := utf8Flag_withStrings pool _
  styles := ⟨rfl, rfl⟩
  checked other inside := by
    rcases Array.mem_push.1 inside with old | rfl
    · exact .inl old
    · exact .inr fits
  written := .inr rfl

/-- A string that is interned has the index that is returned. -/
theorem intern_eq_ok (run : pool.intern text = .ok (index, image)) :
    pool.Extends image ∧ image.Names index text := by
  unfold intern at run
  cases found : pool.indexOf? text with
  | some place =>
      rw [found] at run
      cases run
      obtain ⟨place, here, rfl⟩ := Option.map_eq_some_iff.1 found
      refine ⟨.refl pool, place, ?_, rfl⟩
      obtain ⟨inside, same, _⟩ := Array.findIdx?_eq_some_iff_getElem.1 here
      rw [Array.getElem?_eq_getElem inside, eq_of_beq same]
  | none =>
      rw [found] at run
      obtain ⟨_, fits, same⟩ := Except.bind_eq_ok.1 run
      cases same
      refine ⟨extends_push fits, pool.size, ?_, rfl⟩
      change (pool.strings.push text)[pool.strings.size]? = some text
      exact Array.getElem?_push_size

end DexArsc.Resource.StringPool
