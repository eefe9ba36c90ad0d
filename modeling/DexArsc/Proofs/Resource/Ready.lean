/-
What a refresh of a table that is built writes: the ids and names of the packages and all pools, and the fields of
the headers then. It succeeds unless the table is too large, and leaves everything else as it was.
-/

import DexArsc.Proofs.Resource.FormedMerge
import DexArsc.Proofs.Resource.TableWritten
import Mathlib.Algebra.BigOperators.Group.List.Basic

namespace DexArsc.Resource

variable {tree final : BlockTree}

namespace Package

variable {package : Package} {types keys : PoolSlot}

/-- The leaves of a package hold what it tells: its id, its name and its pools. -/
structure Filled (package : Package) (tree : BlockTree) : Prop where
  header : ∃ front, tree.leaf package.header = .ok front ∧ front.Stands 8 (Bytes.ofWord32 package.id) ∧
    front.Stands namePosition (encodeName package.name)
  pools : ∀ which slot, package.slot? which = some slot → tree.leaf slot.node = .ok slot.pool.toChunk.toArray

/-- The leaves of a package stay where nothing else is written. -/
theorem Filled.frame (filled : package.Filled tree)
    (same : ∀ id, package.Writes id → final.leaf id = tree.leaf id) : package.Filled final where
  header := by
    rw [same _ (.inl rfl)]
    exact filled.header
  pools which slot found := (same _ (.inr ⟨which, slot, found, rfl⟩)).trans (filled.pools which slot found)

namespace Formed

/-- The header of a package has the size of a new one. -/
theorem front (formed : package.Formed types keys tree) :
    ∃ front, tree.leaf package.header = .ok front ∧ front.size = headerSize := by
  obtain ⟨front, leaf, stamp⟩ := BlockTree.leaf_of_stamp? formed.stamp
  exact ⟨front, leaf, (congrArg Prod.fst stamp).trans size_newHeader⟩

theorem nodup (formed : package.Formed types keys tree) (forest : tree.Forest) :
    (package.header :: types.node :: keys.node :: package.chunks.map Prod.snd).Nodup :=
  formed.children ▸ forest.nodup_children package.node

theorem leaves (formed : package.Formed types keys tree) (forest : tree.Forest) : package.Leaves tree := by
  have nodup := formed.nodup forest
  simp only [List.nodup_cons, List.mem_cons, not_or] at nodup
  obtain ⟨_, _, _, _, first, _⟩ := BlockTree.leaf_of_form? formed.pools.1
  obtain ⟨_, _, _, _, second, _⟩ := BlockTree.leaf_of_form? formed.pools.2
  obtain ⟨front, leaf, _⟩ := formed.front
  exact {
    header := ⟨front, leaf⟩
    pools := fun which slot found => by
      cases which with
      | types =>
          cases formed.typeStrings.symm.trans found
          exact ⟨Ne.symm nodup.1.1, _, first⟩
      | keys =>
          cases formed.keyStrings.symm.trans found
          exact ⟨Ne.symm nodup.1.2.1, _, second⟩
    apart := fun slot other found there => by
      cases formed.typeStrings.symm.trans found
      cases formed.keyStrings.symm.trans there
      exact nodup.2.1.1 }

/-- What a refresh writes are children of the package's node. -/
theorem mem_of_writes (formed : package.Formed types keys tree) {id : NodeId} (writes : package.Writes id) :
    id ∈ tree.children package.node := by
  rw [formed.children]
  rcases writes with rfl | ⟨which, slot, found, rfl⟩
  · exact List.mem_cons_self
  · cases which with
    | types =>
        cases formed.typeStrings.symm.trans found
        simp
    | keys =>
        cases formed.keyStrings.symm.trans found
        simp

/-- What a refresh writes and the nodes of the chunks have the package's node as their parent. -/
theorem above_of_writes (formed : package.Formed types keys tree) (forest : tree.Forest) {id : NodeId}
    (writes : package.Writes id) : tree.Above package.node id :=
  (forest.mem_children_iff package.node id).1 (formed.mem_of_writes writes)

theorem above_of_chunk (formed : package.Formed types keys tree) (forest : tree.Forest) {chunk : ChunkType × NodeId}
    (listed : chunk ∈ package.chunks) : tree.Above package.node chunk.2 :=
  (forest.mem_children_iff package.node chunk.2).1 (by
    rw [formed.children]
    simp only [List.mem_cons]
    exact .inr (.inr (.inr (List.mem_map_of_mem listed))))

/-- A refresh of a package fills its leaves. -/
theorem refresh_ok (formed : package.Formed types keys tree) (forest : tree.Forest) : ∃ final,
    package.refresh tree = .ok () final ∧ BlockTree.Rewritten package.Writes tree final ∧ package.Filled final := by
  obtain ⟨front, leaf, size⟩ := formed.front
  obtain ⟨final, run, refreshed⟩ := Package.refresh_ok (formed.leaves forest) leaf
  have length := length_encodeName_of_check formed.name
  have id : (front.putWord32 8 package.id).Stands 8 (Bytes.ofWord32 package.id) :=
    Bytes.stands_overwrite (by rw [Bytes.length_ofWord32, size]; decide)
  refine ⟨final, run, refreshed.rewritten, ⟨_, refreshed.header, ?_, ?_⟩, fun which slot found => ?_⟩
  · exact Bytes.stands_overwrite_of_apart id (.inl (by rw [Bytes.length_ofWord32]; decide))
  · refine Bytes.stands_overwrite ?_
    rw [length, Bytes.size_putWord32, size]
    decide
  · refine refreshed.pools which slot found ?_
    cases which with
    | types =>
        cases formed.typeStrings.symm.trans found
        exact formed.plain.1.modified
    | keys =>
        cases formed.keyStrings.symm.trans found
        exact formed.plain.2.modified

/-- The chunks of a package have the same bytes where their leaves are the same. -/
theorem contents_eq (formed : package.Formed types keys tree) (forest : tree.Forest) (forest' : final.Forest)
    (restamped : BlockTree.Restamped tree final)
    (same : ∀ chunk ∈ package.chunks, ∀ id ∈ tree.children chunk.2, final.leaf id = tree.leaf id) :
    package.contents final = package.contents tree := by
  refine List.map_congr_left fun chunk listed => Prod.ext rfl ?_
  obtain ⟨_, head, body, keeps⟩ := formed.chunks chunk listed
  exact keeps.toBytes_eq forest forest' (fun id _ => restamped.alike id) (same chunk listed)

/-- The fields of a package that is built can be filled, unless it is too large for a word. -/
theorem fillable (formed : package.Formed types keys tree) (forest : tree.Forest)
    (small : (tree.toBytes package.node).length < UInt32.size) : tree.FillableApart package.node := by
  obtain ⟨front, leaf, long⟩ := formed.front
  have children := formed.children
  have below {id : NodeId} (inside : id ∈ tree.children package.node) : tree.Owns package.node id :=
    .of_mem_children .top inside
  have bytes := forest.toBytes_of_form? formed.node rfl
  have offset {before behind : List NodeId} (row : tree.children package.node = before ++ behind) :
      (before.flatMap tree.toBytes).length < UInt32.size := by
    refine Nat.lt_of_le_of_lt ?_ small
    rw [bytes, ← BlockTree.children_of_form? formed.node, row, List.flatMap_append, List.length_append]
    exact Nat.le_add_right ..
  refine .container formed.node rfl (fun child inside => ?_) (fun patch inside => ?_) ?_
  · have size := forest.length_toBytes_le (below (BlockTree.children_of_form? formed.node ▸ inside))
    simp only [nodeForm, List.mem_cons] at inside
    rcases inside with rfl | rfl | rfl | inside
    · exact .leaf formed.header
    · exact .leaf formed.pools.1
    · exact .leaf formed.pools.2
    · obtain ⟨chunk, listed, rfl⟩ := List.mem_map.1 inside
      obtain ⟨_, head, body, keeps⟩ := formed.chunks chunk listed
      exact keeps.fillable (Nat.lt_of_le_of_lt size small)
  · simp only [nodeForm, List.mem_cons, List.not_mem_nil, or_false] at inside
    rcases inside with rfl | rfl | rfl
    · exact .word children leaf rfl (by rw [long]; decide) (by rintro _ ⟨⟩) small rfl
    · exact .word children leaf rfl (by rw [long]; decide)
        (by rintro _ ⟨⟩; exact below (by rw [children]; simp)) (offset (children.trans rfl))
        ⟨[package.header], _, children, rfl⟩
    · exact .word children leaf rfl (by rw [long]; decide)
        (by rintro _ ⟨⟩; exact below (by rw [children]; simp)) (offset (children.trans rfl))
        ⟨[package.header, types.node], _, children, rfl⟩
  · refine .cons (fun patch inside => ?_) (.cons (fun patch inside => ?_) (.cons (by simp) .nil))
    · simp only [List.mem_cons, List.not_mem_nil, or_false] at inside
      rcases inside with rfl | rfl
      · exact BlockTree.not_overlaps_word package.header (by decide)
      · exact BlockTree.not_overlaps_word package.header (by decide)
    · cases List.mem_singleton.1 inside
      exact BlockTree.not_overlaps_word package.header (by decide)

end Formed

/-- The fields of a package's header stand apart from its id and its name. -/
theorem Filled.filling {top : NodeId} (filled : package.Filled tree) (formed : package.Formed types keys tree)
    (forest : tree.Forest) (filling : tree.Filling top final) (fillable : tree.Fillable top)
    (owned : tree.Owns top package.node) : package.Filled final := by
  have below {id : NodeId} (writes : package.Writes id) : tree.Owns top id :=
    owned.of_mem_children (formed.mem_of_writes writes)
  obtain ⟨front, leaf, id, name⟩ := filled.header
  obtain ⟨front', leaf', _⟩ := filling.leaf leaf (below (.inl rfl))
  have kept (place : Nat) (low : 8 ≤ place) (high : place < 268) : front'[place]? = front[place]? := by
    rw [← BlockTree.byte?_of_leaf leaf', ← BlockTree.byte?_of_leaf leaf]
    refine filling.kept package.header place fun owner node patch above live inside covers => ?_
    obtain ⟨same, low', high'⟩ := covers
    have listed := fillable.mem_of_field forest formed.node (same ▸ List.mem_cons_self) above live inside
    simp only [nodeForm, List.mem_cons, List.not_mem_nil, or_false] at listed
    rcases listed with rfl | rfl | rfl
    · have stop : place < 4 + 4 := high'
      omega
    · have start : 268 ≤ place := low'
      omega
    · have start : 276 ≤ place := low'
      omega
  have length := length_encodeName_of_check formed.name
  refine ⟨⟨front', leaf', id.congr fun place low high => kept place low ?_, name.congr fun place low high =>
    kept place ?_ ?_⟩, fun which slot found => ?_⟩
  · rw [Bytes.length_ofWord32] at high
    omega
  · exact Nat.le_trans (by decide) low
  · rw [length] at high
    exact high
  · refine filling.leaf_of_not_heads fillable (filled.pools which slot found) (below (.inr ⟨which, slot, found, rfl⟩)) ?_
    obtain ⟨notTypes, notKeys⟩ := formed.not_heads forest
    cases which with
    | types =>
        cases formed.typeStrings.symm.trans found
        exact notTypes
    | keys =>
        cases formed.keyStrings.symm.trans found
        exact notKeys

end Package

namespace Table

variable {table final : Table}

/-- The leaves that a refresh writes: the global strings, and the headers and pools of the packages. -/
def Writes (table : Table) (id : NodeId) : Prop :=
  id = table.stringsNode ∨ ∃ package ∈ table.packages, package.Writes id

/-- The leaves of a table hold its strings and what its packages tell. -/
structure Filled (table : Table) : Prop where
  strings : table.tree.leaf table.stringsNode = .ok table.strings.toChunk.toArray
  packages : ∀ package ∈ table.packages, package.Filled table.tree

/-- Behind the refresh of some packages all others are filled as before. -/
theorem Formed.fillRow {later : List Package} : ∀ {done : List Package} {table : Table}, table.Formed →
    table.packages = done ++ later → (∀ package ∈ done, package.Filled table.tree) →
      ∃ tree, (later.forM fun package => onTree package.refresh) table = .ok () { table with tree } ∧
        BlockTree.Restamped table.tree tree ∧
        BlockTree.Rewritten (fun id => ∃ package ∈ later, package.Writes id) table.tree tree ∧
        ∀ package ∈ done ++ later, package.Filled tree := by
  induction later with
  | nil => exact fun {_ table} _ _ filled => ⟨table.tree, rfl, .refl _, .refl _ _, by simpa using filled⟩
  | cons package later ih =>
      intro done table formed whole filled
      have forest := formed.linked.toForest
      have houses := formed.houses
      rw [whole] at houses
      obtain ⟨types, keys, built⟩ := formed.packages package (by simp [whole])
      obtain ⟨between, run, rewritten, here⟩ := built.refresh_ok forest
      have restamped := (built.refresh_restamps forest).ends (Step.ends_ok run)
      have step : onTree package.refresh table = .ok () { table with tree := between } :=
        Step.onPart_eq_ok.2 ⟨between, run, rfl⟩
      have owned {other : Package} (inside : other ∈ done ++ package :: later) {id : NodeId}
          (writes : other.Writes id) : table.tree.Owns other.node id := by
        obtain ⟨_, _, built⟩ := formed.packages other (whole ▸ inside)
        exact BlockTree.Owns.top.of_mem_children (built.mem_of_writes writes)
      have kept : ∀ other ∈ done, other.Filled between := fun other inside =>
        (filled other inside).frame fun id writes => rewritten.leaf_eq fun also =>
          houses.apart (List.mem_append_left _ inside) (owned (by simp [inside]) writes) (owned (by simp) also)
      obtain ⟨final, rest, restamped', rewritten', filled'⟩ := @ih (done ++ [package]) { table with tree := between }
        (Restamped.formed ⟨restamped, rfl⟩ formed) (by simp [whole]) fun other inside =>
          (List.mem_append.1 inside).elim (kept other) fun single => List.mem_singleton.1 single ▸ here
      refine ⟨final, ?_, restamped.trans restamped', ?_, by simpa using filled'⟩
      · rw [Step.forM_cons, Step.bind_ok step]
        exact rest
      · refine (rewritten.mono fun id writes => ?_).trans (rewritten'.mono fun id ⟨other, inside, writes⟩ => ?_)
        · exact ⟨package, List.mem_cons_self, writes⟩
        · exact ⟨other, List.mem_cons_of_mem _ inside, writes⟩

/-- A refresh of a table that is built fills the leaves, and refreshes the tree then. -/
theorem Formed.fill (formed : table.Formed) : ∃ filled, Restamped table filled ∧
    BlockTree.Rewritten table.Writes table.tree filled.tree ∧ filled.Filled ∧
      refresh table = onTree (BlockTree.refresh ⟨0⟩) filled := by
  obtain ⟨between, run, restamped, rewritten, packages⟩ := @Formed.fillRow table.packages [] table formed rfl (by simp)
  have here : Restamped table { table with tree := between } := ⟨restamped, rfl⟩
  have built := here.formed formed
  obtain ⟨_, _, _, _, leaf, _⟩ := BlockTree.leaf_of_form? built.strings
  rw [← formed.stringsNode] at leaf
  obtain ⟨final, run', rewritten', strings⟩ := @BlockTree.setLeaf_rewrites between (· = table.stringsNode) _ _ leaf rfl
    table.strings.toChunk.toArray
  have apart : ¬between.Heads table.stringsNode := by
    rw [formed.stringsNode]
    exact built.linked.toForest.not_heads built.children (by simp)
  have restamped' := (BlockTree.Restamped.setLeaf apart table.strings.toChunk.toArray).ends (Step.ends_ok run')
  have step : onTree (BlockTree.setLeaf table.stringsNode table.strings.toChunk.toArray) { table with tree := between } =
      .ok () { table with tree := final } := Step.onPart_eq_ok.2 ⟨final, run', rfl⟩
  refine ⟨{ table with tree := final }, ⟨restamped.trans restamped', rfl⟩, ?_, ⟨strings, fun package inside => ?_⟩, ?_⟩
  · exact (rewritten.mono fun _ => .inr).trans (rewritten'.mono fun _ => .inl)
  · refine (packages package inside).frame fun id writes => rewritten'.leaf_eq ?_
    rintro rfl
    obtain ⟨_, _, package'⟩ := built.packages package inside
    have owned := BlockTree.Owns.top.of_mem_children (package'.mem_of_writes writes)
    rw [formed.stringsNode] at owned
    exact built.not_owns inside (by decide) owned
  · unfold refresh
    rw [Step.bind_ok (Step.get_apply table), Step.bind_ok run, if_pos formed.plain.modified, Step.bind_ok step,
      formed.root]

/-- The header of a table has the size and the first bytes of a new one. -/
theorem Formed.front (formed : table.Formed) : ∃ head, table.tree.leaf ⟨1⟩ = .ok head ∧ head.size = headerSize ∧
    head.toList.take 4 = newHeader.toList.take 4 := by
  obtain ⟨head, leaf, stamp⟩ := BlockTree.leaf_of_stamp? formed.stamp
  exact ⟨head, leaf, (congrArg Prod.fst stamp).trans (by decide), congrArg Prod.snd stamp⟩

/-- A package writes its header at least, so there are no more packages than bytes. -/
theorem Formed.length_packages_le (formed : table.Formed) :
    table.packages.length ≤ (table.tree.toBytes ⟨2⟩).length := by
  have forest := formed.linked.toForest
  have some (size : Nat) (listed : size ∈ table.packages.map fun package => (table.tree.toBytes package.node).length) :
      1 ≤ size := by
    obtain ⟨package, inside, rfl⟩ := List.mem_map.1 listed
    obtain ⟨_, _, built⟩ := formed.packages package inside
    obtain ⟨front, leaf, size⟩ := built.front
    have least := forest.length_toBytes_le (built.owns List.mem_cons_self)
    rw [BlockTree.toBytes_of_leaf leaf, Array.length_toList, size] at least
    exact Nat.le_trans (by decide) least
  have enough := List.length_le_sum_of_one_le _ some
  rw [List.length_map] at enough
  rw [forest.toBytes_of_form? formed.middle rfl, List.length_flatMap, List.map_map]
  exact enough

/-- The fields of a table that is built can be filled, unless it is too large for a word. -/
theorem Formed.fillable (formed : table.Formed) (small : (table.tree.toBytes ⟨0⟩).length < UInt32.size) :
    table.tree.FillableApart ⟨0⟩ := by
  have forest := formed.linked.toForest
  have children := formed.children
  have middle : table.tree.Owns ⟨0⟩ ⟨2⟩ := BlockTree.Owns.top.of_mem_children (by rw [children]; simp)
  have size {id : NodeId} (owned : table.tree.Owns ⟨0⟩ id) : (table.tree.toBytes id).length < UInt32.size :=
    Nat.lt_of_le_of_lt (forest.length_toBytes_le owned) small
  have packages : table.tree.FillableApart ⟨2⟩ := by
    refine .container formed.middle rfl (fun child inside => ?_) (by simp) .nil
    obtain ⟨package, listed, rfl⟩ := List.mem_map.1 inside
    obtain ⟨_, _, built⟩ := formed.packages package listed
    exact built.fillable forest (size (middle.of_mem_children (BlockTree.children_of_form? formed.middle ▸ inside)))
  obtain ⟨head, leaf, long, _⟩ := formed.front
  refine .container formed.top rfl (fun child inside => ?_) (fun patch inside => ?_) ?_
  · simp only [List.mem_cons, List.not_mem_nil, or_false] at inside
    rcases inside with rfl | rfl | rfl
    · exact .leaf formed.header
    · exact .leaf formed.strings
    · exact packages
  · simp only [rootPatches, List.mem_cons, List.not_mem_nil, or_false] at inside
    rcases inside with rfl | rfl
    · exact .word children leaf rfl (by rw [long]; decide) (by rintro _ ⟨⟩) small rfl
    · obtain ⟨node, live, _⟩ := BlockTree.node_of_form? formed.middle
      refine .word children leaf rfl (by rw [long]; decide) (by rintro _ ⟨⟩; exact middle) ?_
        ⟨BlockTree.isLive_iff.2 ⟨node, live⟩, rfl⟩
      rw [formed.houses.children, List.length_map]
      exact Nat.lt_of_le_of_lt formed.length_packages_le (size middle)
  · refine .cons (fun patch inside => ?_) (.cons (by simp) .nil)
    cases List.mem_singleton.1 inside
    exact BlockTree.not_overlaps_word ⟨1⟩ (by decide)

end Table

/-- The number of bytes that a pool is written as. -/
def PoolSlot.writtenSize (slot : PoolSlot) : Nat :=
  slot.pool.toChunk.length

/-- The number of bytes that a package is written as: a header, two pools and the chunks. -/
def Package.writtenSize (package : Package) (tree : BlockTree) : Nat :=
  headerSize + (package.typeStrings.elim 0 PoolSlot.writtenSize + (package.keyStrings.elim 0 PoolSlot.writtenSize +
    ((package.contents tree).map fun chunk => chunk.2.length).sum))

/-- The number of bytes that a table is written as: a header, the global strings and the packages. -/
def Table.writtenSize (table : Table) : Nat :=
  headerSize + (table.strings.toChunk.length + (table.packages.map fun package => package.writtenSize table.tree).sum)

namespace Package

variable {package : Package} {types keys : PoolSlot}

/-- The pieces behind the header of a package that is filled. -/
def rowOf (package : Package) (types keys : PoolSlot) (tree : BlockTree) : List (List UInt8) :=
  types.pool.toChunk :: keys.pool.toChunk :: (package.contents tree).map Prod.snd

/-- A package that is filled writes its header, its pools and its chunks. -/
theorem Filled.toBytes (filled : package.Filled tree) (formed : package.Formed types keys tree) (forest : tree.Forest)
    {front : Bytes} (leaf : tree.leaf package.header = .ok front) :
    tree.toBytes package.node = front.toList ++ (package.rowOf types keys tree).flatten := by
  have first := BlockTree.toBytes_of_leaf (filled.pools .types types formed.typeStrings)
  have second := BlockTree.toBytes_of_leaf (filled.pools .keys keys formed.keyStrings)
  have chunks : (package.chunks.map Prod.snd).map tree.toBytes = (package.contents tree).map Prod.snd := by
    rw [contents, List.map_map, List.map_map]
    rfl
  rw [forest.toBytes_of_form? formed.node rfl, nodeForm, List.flatMap_cons, List.flatMap_cons, List.flatMap_cons,
    BlockTree.toBytes_of_leaf leaf, first, second, List.flatMap_def, chunks, rowOf, List.flatten_cons,
    List.flatten_cons]

theorem Filled.length_toBytes (filled : package.Filled tree) (formed : package.Formed types keys tree)
    (forest : tree.Forest) : (tree.toBytes package.node).length = package.writtenSize tree := by
  obtain ⟨front, leaf, size⟩ := formed.front
  rw [filled.toBytes formed forest leaf, List.length_append, Array.length_toList, size, rowOf, List.flatten_cons,
    List.flatten_cons, List.length_append, List.length_append, List.length_flatten, List.map_map, writtenSize,
    formed.typeStrings, formed.keyStrings]
  rfl

end Package

namespace Table

variable {table filled : Table}

/-- The bytes of a table that is filled: the header, the global strings and the packages. -/
theorem Filled.toBytes (isFilled : table.Filled) (formed : table.Formed) {head : Bytes}
    (leaf : table.tree.leaf ⟨1⟩ = .ok head) : table.tree.toBytes ⟨0⟩ = head.toList ++ (table.strings.toChunk ::
      table.packages.map fun package => table.tree.toBytes package.node).flatten := by
  have forest := formed.linked.toForest
  have strings := isFilled.strings
  rw [formed.stringsNode] at strings
  rw [forest.toBytes_of_form? formed.top rfl, List.flatMap_cons, List.flatMap_cons, List.flatMap_singleton,
    BlockTree.toBytes_of_leaf leaf, BlockTree.toBytes_of_leaf strings, forest.toBytes_of_form? formed.middle rfl,
    List.flatMap_def, List.map_map, List.flatten_cons]
  rfl

theorem Filled.length_toBytes (isFilled : table.Filled) (formed : table.Formed) :
    (table.tree.toBytes ⟨0⟩).length = table.writtenSize := by
  obtain ⟨head, leaf, size, _⟩ := formed.front
  have sizes : (table.packages.map fun package => table.tree.toBytes package.node).map List.length =
      table.packages.map fun package => package.writtenSize table.tree := by
    rw [List.map_map]
    refine List.map_congr_left fun package inside => ?_
    obtain ⟨_, _, built⟩ := formed.packages package inside
    exact (isFilled.packages package inside).length_toBytes built formed.linked.toForest
  rw [isFilled.toBytes formed leaf, List.length_append, Array.length_toList, size, List.flatten_cons,
    List.length_append, List.length_flatten, sizes, writtenSize]

/-- A refresh writes no leaf of a chunk before it fills the headers. -/
theorem Formed.not_writes (formed : table.Formed) {package : Package} (inside : package ∈ table.packages)
    {chunk : ChunkType × NodeId} (listed : chunk ∈ package.chunks) {id : NodeId}
    (below : id ∈ table.tree.children chunk.2) : ¬table.Writes id := by
  have forest := formed.linked.toForest
  obtain ⟨_, _, built⟩ := formed.packages package inside
  have owned := built.owns_chunk listed
  have above := (forest.mem_children_iff chunk.2 id).1 below
  rintro (rfl | ⟨other, inside', writes⟩)
  · have top := (forest.mem_children_iff ⟨0⟩ table.stringsNode).1 (by rw [formed.children, formed.stringsNode]; simp)
    have same : chunk.2 = ⟨0⟩ := Option.some.inj (above.symm.trans top)
    exact formed.not_owns inside (by decide) (same ▸ owned)
  · obtain ⟨_, _, built'⟩ := formed.packages other inside'
    have same : chunk.2 = other.node := Option.some.inj (above.symm.trans (built'.above_of_writes forest writes))
    have up := built.above_of_chunk forest listed
    rw [same] at up
    have container : package.node = ⟨2⟩ := Option.some.inj (up.symm.trans (formed.houses.parent? inside'))
    have own : table.tree.Owns package.node package.node := .top
    exact formed.not_owns inside (by rw [container]; decide) own

/-- The chunks have the same bytes behind what a refresh writes before it fills the headers. -/
theorem Formed.contents_eq (formed : table.Formed) (restamped : Restamped table filled)
    (rewritten : BlockTree.Rewritten table.Writes table.tree filled.tree) {package : Package}
    (inside : package ∈ table.packages) : package.contents filled.tree = package.contents table.tree := by
  obtain ⟨_, _, built⟩ := formed.packages package inside
  exact built.contents_eq formed.linked.toForest (restamped.formed formed).linked.toForest restamped.tree
    fun chunk listed id below => rewritten.leaf_eq (formed.not_writes inside listed below)

/-- What is filled takes as many bytes as before. -/
theorem Formed.writtenSize_eq (formed : table.Formed) (restamped : Restamped table filled)
    (rewritten : BlockTree.Rewritten table.Writes table.tree filled.tree) :
    filled.writtenSize = table.writtenSize := by
  have sizes : (filled.packages.map fun package => package.writtenSize filled.tree) =
      table.packages.map fun package => package.writtenSize table.tree := by
    rw [restamped.rest]
    refine List.map_congr_left fun package inside => ?_
    rw [Package.writtenSize, Package.writtenSize, formed.contents_eq restamped rewritten inside]
  rw [writtenSize, writtenSize, sizes, restamped.rest]

end Table

/-- A chunk with its length in its size field. -/
def withSize (bytes : List UInt8) : List UInt8 :=
  (Bytes.putWord32 bytes.toArray 4 (UInt32.ofNat bytes.length)).toList

/-- A chunk that tells its length stays. -/
theorem withSize_of_word {bytes : List UInt8} (long : 8 ≤ bytes.length)
    (size : (Bytes.word bytes 4).toNat = bytes.length) : withSize bytes = bytes := by
  have stands : Bytes.Stands bytes.toArray 4 (Bytes.ofWord32 (UInt32.ofNat bytes.length)) := by
    rw [← size, UInt32.ofNat_toNat, Bytes.ofWord32_word long]
    exact List.take_prefix ..
  rw [withSize, Bytes.putWord32, Bytes.overwrite_of_stands stands]

theorem withSize_of_isChunk {bytes : List UInt8} (isChunk : IsChunk bytes) : withSize bytes = bytes :=
  withSize_of_word isChunk.length_le isChunk.size

/-- Bytes that differ from a chunk in the size field only, and tell their length there. -/
theorem eq_withSize {bytes image : List UInt8} (length : image.length = bytes.length) (long : 8 ≤ image.length)
    (size : (Bytes.word image 4).toNat = image.length)
    (same : ∀ place, place < 4 ∨ 8 ≤ place → image[place]? = bytes[place]?) : image = withSize bytes := by
  rw [← withSize_of_word long size, withSize, withSize, ← length]
  refine congrArg Array.toList (Array.ext_getElem? fun place => ?_)
  rw [Bytes.putWord32, Bytes.putWord32, Bytes.getElem?_overwrite, Bytes.getElem?_overwrite, Bytes.length_ofWord32,
    List.size_toArray, List.size_toArray, ← length, List.getElem?_toArray, List.getElem?_toArray]
  split
  · rfl
  · exact same place (by omega)

namespace Table

variable {table : Table} {size : Nat}

/-- A table that is refreshed: its leaves are filled, and its fields are current. -/
structure Ready (table : Table) : Prop where
  formed : table.Formed
  filled : table.Filled
  current : table.tree.Current ⟨0⟩

/-- The size field of a chunk tells the length of the chunk, and all other bytes of it stay. -/
theorem toBytes_of_filling {top : NodeId} (filling : tree.Filling top final) (fillable : tree.FillableApart top)
    (forest : tree.Forest) {type : ChunkType} {node head body : NodeId} (keeps : tree.KeepsChunk type node head body)
    (owned : tree.Owns top node) : final.toBytes node = withSize (tree.toBytes node) := by
  have forest' := filling.forest forest
  have children := BlockTree.children_of_form? keeps.container
  have container := (BlockTree.form?_congr (congrFun filling.shapes node)).trans keeps.container
  have below {id : NodeId} (inside : id ∈ tree.children node) : tree.Owns top id := owned.of_mem_children inside
  obtain ⟨front, rest, first, second, bytes⟩ := keeps.toBytes forest
  have second' := filling.leaf_of_not_heads fillable.toFillable second (below (by simp [children]))
    (forest.not_heads children (by simp))
  obtain ⟨front', first', length⟩ := filling.leaf first (below (by simp [children]))
  have bytes' : final.toBytes node = front'.toList ++ rest.toList := by
    rw [forest'.toBytes_of_form? container rfl, List.flatMap_cons, List.flatMap_singleton,
      BlockTree.toBytes_of_leaf first', BlockTree.toBytes_of_leaf second']
  have long : 8 ≤ front.size := by
    obtain ⟨stamp, here, header⟩ := keeps.stamp
    cases (BlockTree.stamp?_of_leaf first).symm.trans here
    exact header.least
  have word := (filling.current fillable .top).word (filling.owns_iff.2 owned) container List.mem_cons_self rfl first'
  have size : (Bytes.word (final.toBytes node) 4).toNat = (final.toBytes node).length := by
    rw [← word, bytes', Bytes.word_append (by rw [Array.length_toList, length]; exact long)]
  refine eq_withSize (by simp [bytes, bytes', length]) ?_ size fun place apart => ?_
  · rw [bytes', List.length_append, Array.length_toList, length]
    exact Nat.le_add_right_of_le long
  · rw [bytes, bytes', List.getElem?_append, List.getElem?_append, Array.length_toList, Array.length_toList, length]
    simp only [Array.getElem?_toList]
    split
    · rw [← BlockTree.byte?_of_leaf first', ← BlockTree.byte?_of_leaf first]
      refine filling.kept head place fun owner source patch above live inside covers => ?_
      obtain ⟨same, low, high⟩ := covers
      have listed := fillable.mem_of_field forest keeps.container (same ▸ List.mem_cons_self) above live inside
      rw [List.mem_singleton.1 listed] at low high
      have start : 4 ≤ place := low
      have stop : place < 4 + 4 := high
      omega
    · rfl

theorem Formed.owns_package (formed : table.Formed) {package : Package} (inside : package ∈ table.packages) :
    table.tree.Owns ⟨0⟩ package.node := by
  have middle : table.tree.Owns ⟨0⟩ ⟨2⟩ := BlockTree.Owns.top.of_mem_children (by rw [formed.children]; simp)
  exact middle.of_mem_children (by rw [formed.houses.children]; exact List.mem_map_of_mem inside)

/-- A table that is built and filled is refreshed, unless it is too large for a word. -/
theorem Filled.refresh (filled : table.Filled) (formed : table.Formed) (small : table.writtenSize < UInt32.size) :
    ∃ final, BlockTree.refresh ⟨0⟩ table.tree = .ok (UInt64.ofNat table.writtenSize) final ∧
      (final.toBytes ⟨0⟩).length = table.writtenSize ∧ BlockTree.Restamped table.tree final ∧
      Ready { table with tree := final } ∧ ∀ package ∈ table.packages, package.contents final =
        (package.contents table.tree).map fun chunk => (chunk.1, withSize chunk.2) := by
  have forest := formed.linked.toForest
  rw [← filled.length_toBytes formed] at small ⊢
  have fillable := formed.fillable small
  obtain ⟨final, run, filling⟩ := forest.refresh_of_fillable fillable.toFillable
  obtain ⟨node, live, _⟩ := BlockTree.node_of_form? formed.top
  have restamped := (forest.refresh_restamps live formed.low).ends (Step.ends_ok run)
  have apart : ¬table.tree.Heads table.stringsNode := by
    rw [formed.stringsNode]
    exact forest.not_heads formed.children (by simp)
  have here : Restamped table { table with tree := final } := ⟨restamped, rfl⟩
  have strings := filling.leaf_of_not_heads fillable.toFillable filled.strings
    (BlockTree.Owns.top.of_mem_children (by rw [formed.children, formed.stringsNode]; simp)) apart
  have packages (package : Package) (inside : package ∈ table.packages) : package.Filled final := by
    obtain ⟨_, _, built⟩ := formed.packages package inside
    exact (filled.packages package inside).filling built forest filling fillable.toFillable
      (formed.owns_package inside)
  refine ⟨final, run, filling.lengths ⟨0⟩ .top, restamped,
    ⟨here.formed formed, ⟨strings, packages⟩, filling.current fillable .top⟩, fun package inside => ?_⟩
  obtain ⟨_, _, built⟩ := formed.packages package inside
  rw [Package.contents, Package.contents, List.map_map]
  refine List.map_congr_left fun chunk listed => ?_
  obtain ⟨_, head, body, keeps⟩ := built.chunks chunk listed
  have owned := (formed.owns_package inside).trans (built.owns_chunk listed)
  rw [Function.comp_apply, toBytes_of_filling filling fillable forest keeps owned]

end Table
end DexArsc.Resource
