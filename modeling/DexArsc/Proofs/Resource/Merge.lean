/-
Tables that receive copies of another table's packages. A copy has the contents of the package that it was
made from, and its string values name the same texts.
-/

import DexArsc.Proofs.Resource.Rebind
import DexArsc.Proofs.Resource.Run
import DexArsc.Proofs.Resource.StringPool

namespace DexArsc

namespace BlockTree

variable {other tree final : BlockTree} {top : NodeId} {pairs : NodeMap}

theorem Imported.children (imported : Imported other top tree final pairs) {old copy : NodeId}
    (listed : (old, copy) ∈ pairs) :
    List.Forall₂ (fun child image => (child, image) ∈ pairs) (other.children old) (final.children copy) := by
  obtain ⟨node, fresh, found, live, copied, _⟩ := imported.each _ listed
  rw [BlockTree.children, BlockTree.children, found, live]
  exact copied.children

/-- The copy of a leaf is a leaf with the same bytes. -/
theorem Imported.leaf (imported : Imported other top tree final pairs) {old copy : NodeId}
    (listed : (old, copy) ∈ pairs) {bytes : Bytes} (found : other.leaf old = .ok bytes) :
    final.leaf copy = .ok bytes := by
  obtain ⟨node, fresh, here, live, copied, _⟩ := imported.each _ listed
  obtain ⟨node', here', kind⟩ := leaf_eq_ok.1 found
  cases here.symm.trans here'
  exact leaf_eq_ok.2 ⟨fresh, live, copied.kind.trans kind⟩

/-- A node has the content of the node that it was copied from. -/
theorem Imported.content (imported : Imported other top tree final pairs) {old copy : NodeId}
    (listed : (old, copy) ∈ pairs) {shape : Shape} (found : other.shape? old = some shape) :
    ∃ image, final.shape? copy = some image ∧ image.content = shape.content := by
  obtain ⟨node, fresh, here, live, copied, _⟩ := imported.each _ listed
  rw [shape?_of_some here] at found
  cases found
  exact ⟨fresh.shape, shape?_of_some live, congrArg NodeKind.content copied.kind⟩

/-- The copy of a chunk is a chunk, with copies of the leaves. -/
theorem Imported.holdsChunk (imported : Imported other top tree final pairs) {old copy head body : NodeId}
    (listed : (old, copy) ∈ pairs) (holds : other.HoldsChunk old head body) : ∃ head' body',
      final.HoldsChunk copy head' body' ∧ (head, head') ∈ pairs ∧ (body, body') ∈ pairs := by
  obtain ⟨shape, found, container, _⟩ := holds.node
  obtain ⟨_, front, leaf⟩ := holds.head
  obtain ⟨_, rest, leaf'⟩ := holds.body
  obtain ⟨image, live, content⟩ := imported.content listed found
  have children := imported.children listed
  rw [holds.children, children_of_shape? live] at children
  obtain ⟨head', row, first, children, same⟩ := List.forall₂_cons_left_iff.1 children
  obtain ⟨body', rest', second, children, same'⟩ := List.forall₂_cons_left_iff.1 children
  cases List.forall₂_nil_left_iff.1 children
  obtain ⟨_, there, content'⟩ := imported.content first front
  obtain ⟨_, there', content''⟩ := imported.content second rest
  exact ⟨head', body', ⟨⟨image, live, content.trans container, same.trans (congrArg _ same')⟩,
    ⟨_, there, content'.trans leaf⟩, ⟨_, there', content''.trans leaf'⟩⟩, first, second⟩

end BlockTree

namespace Resource

namespace Package

variable {other tree final : BlockTree} {package copy : Package} {pairs : NodeMap} {old new : List NodeId}

theorem Partners.listed {id image : NodeId} (partners : Partners old new id image)
    (row : List.Forall₂ (fun child image => (child, image) ∈ pairs) old new) : (id, image) ∈ pairs := by
  obtain ⟨place, here, there⟩ := partners
  obtain ⟨partner, found, listed⟩ := forall₂_getElem? row here
  cases there.symm.trans found
  exact listed

/-- Different nodes have different partners. -/
theorem Partners.inj {first second image : NodeId} (nodup : new.Nodup) (partners : Partners old new first image)
    (partners' : Partners old new second image) : first = second := by
  obtain ⟨place, here, there⟩ := partners
  obtain ⟨place', here', there'⟩ := partners'
  obtain ⟨inside, same⟩ := List.getElem?_eq_some_iff.1 there
  obtain ⟨inside', same'⟩ := List.getElem?_eq_some_iff.1 there'
  cases (List.Nodup.getElem_inj_iff nodup).1 (same.trans same'.symm)
  exact Option.some.inj (here.symm.trans here')

theorem nodup_of_partners {ids images : List NodeId} (nodup : new.Nodup) (distinct : ids.Nodup)
    (row : List.Forall₂ (Partners old new) ids images) : images.Nodup := by
  induction row with
  | nil => exact List.nodup_nil
  | @cons id image ids images here rest ih =>
      obtain ⟨apart, distinct⟩ := List.nodup_cons.1 distinct
      refine List.nodup_cons.2 ⟨fun inside => apart ?_, ih distinct⟩
      obtain ⟨place, found⟩ := List.mem_iff_getElem?.1 inside
      obtain ⟨id', found', there⟩ := forall₂_getElem? rest.flip found
      rw [here.inj nodup there]
      exact List.mem_of_getElem? found'

/-- The copy of a package that is held is held. -/
theorem Held.copied (held : package.Held other) (imported : other.Imported package.node tree final pairs)
    (node : copy.node = tree.fresh)
    (rebound : Rebound (other.children package.node) (final.children tree.fresh) package copy) :
    copy.Held final := by
  have row := imported.children imported.root
  obtain ⟨shape, found, container⟩ := held.node
  obtain ⟨image, live, content⟩ := imported.content imported.root found
  have source (chunk : ChunkType × NodeId) (inside : chunk ∈ copy.chunks) : ∃ old ∈ package.chunks,
      Partners (other.children package.node) (final.children tree.fresh) old.2 chunk.2 := by
    obtain ⟨place, here⟩ := List.mem_iff_getElem?.1 inside
    obtain ⟨old, there, _, partners⟩ := forall₂_getElem? rebound.chunks.flip here
    exact ⟨old, List.mem_of_getElem? there, partners⟩
  refine ⟨⟨image, node ▸ live, content.trans container⟩, fun chunk inside => ?_, fun chunk inside => ?_, ?_⟩
  · obtain ⟨_, _, _, _, there⟩ := source chunk inside
    rw [node]
    exact List.mem_of_getElem? there
  · obtain ⟨old, listed, partners⟩ := source chunk inside
    obtain ⟨head, body, holds⟩ := held.holds old listed
    obtain ⟨head', body', holds', _⟩ := imported.holdsChunk (partners.listed row) holds
    exact ⟨head', body', holds'⟩
  · have nodes : List.Forall₂ (Partners (other.children package.node) (final.children tree.fresh))
        (package.chunks.map Prod.snd) (copy.chunks.map Prod.snd) :=
      List.forall₂_map_left_iff.2 (List.forall₂_map_right_iff.2 (rebound.chunks.imp fun _ _ => And.right))
    refine nodup_of_partners ?_ held.nodup nodes
    rw [BlockTree.children_of_shape? live]
    exact imported.enlarged.forest.nodup _ _ live

/-- The leaves of a package's chunks were created behind its node. -/
theorem Held.low_of_ofChunks (held : package.Held tree) (linked : tree.Linked) {start : Nat}
    (low : package.node.index = start) {id : NodeId}
    (inside : OfChunks tree ((package.chunks.filter (·.1 == .typeEntries)).map Prod.snd) id) :
    start ≤ id.index := by
  obtain ⟨node, listed, child⟩ := inside
  obtain ⟨chunk, typed, rfl⟩ := List.mem_map.1 listed
  have owned := (held.owns (List.mem_filter.1 typed).1).of_mem_children child
  exact low ▸ owned.index_le linked

end Package

namespace Table

variable {other pool image : StringPool} {old new : UInt32}

theorem adoptString_eq_ok (run : adoptString other old pool = .ok new image) :
    ∃ text, other.get? old = some text ∧ pool.Extends image ∧ image.Names new text := by
  unfold adoptString at run
  cases found : other.get? old with
  | none =>
      rw [found] at run
      cases run
  | some text =>
      rw [found] at run
      obtain ⟨_, _, here, run⟩ := Step.bind_eq_ok.1 run
      cases here
      obtain ⟨⟨index, grown⟩, interned, run⟩ := Step.check_eq_ok.1 run
      cases run
      exact ⟨text, rfl, StringPool.intern_eq_ok interned⟩

/-- Strings that are adopted stand behind all strings that a pool has. -/
theorem adoptString_along (other : StringPool) : (adoptString other).Along StringPool.Extends where
  refl := .refl
  trans := .trans
  leads old pool := by
    constructor
    unfold adoptString
    cases other.get? old with
    | none => exact .fail (.refl pool) _
    | some text =>
        refine .behind (Step.get_apply _) (.check (.refl pool) fun result interned => ?_)
        exact .of_ok rfl (StringPool.intern_eq_ok interned).1

/-- A copy of a package is added to a table: the package is copied with its nodes, its string values are
remapped, and the copy becomes the last package. -/
structure CopyAdded (table other : Table) (package copy : Package) (pairs : NodeMap)
    (first second tree : BlockTree) (pool : StringPool) (owner below : Node) (final : Table) : Prop where
  absent : table.package? package.id = none
  imported : other.tree.Imported package.node table.tree first pairs
  node : copy.node = table.tree.fresh
  rebound : Package.Rebound (other.tree.children package.node) (first.children table.tree.fresh) package copy
  rewritten : BlockTree.Rewritten
    (Package.OfChunks first ((copy.chunks.filter (·.1 == .typeEntries)).map Prod.snd)) first second
  grows : BlockTree.Grows table.tree.nodes.size table.tree second
  held : copy.Held second
  strings : table.strings.Extends pool
  remapped : ∀ chunk ∈ copy.chunks, chunk.1 = .typeEntries → ∀ head body,
    first.HoldsChunk chunk.2 head body → Package.Remapped (adoptString other.strings) StringPool.Extends
      head body (first, table.strings) (second, pool)
  above : second.node? table.packagesNode = some owner
  live : second.node? copy.node = some below
  orphan : below.parent = none
  attached : second.Attached table.packagesNode copy.node owner below tree
  final : final = { table with
    tree
    strings := pool
    packages := table.packages ++ [copy] }

/-- A merge that fails at a package has added nodes and strings at most. -/
structure Extended (table final : Table) : Prop where
  grows : BlockTree.Grows table.tree.nodes.size table.tree final.tree
  strings : table.strings.Extends final.strings
  rest : final = { table with
    tree := final.tree
    strings := final.strings }

/-- The step that remaps the string values of a copy. -/
def remapCopy (other : Table) (id : UInt32) (copy : Package) : Step Table Nat :=
  Step.within (Package.title id) (Step.onPart (fun table : Table => (table.tree, table.strings))
    (fun (tree, strings) table => { table with
      tree
      strings }) (copy.remapStrings (adoptString other.strings)))

theorem mergePackage_eq (other : Table) (package : Package) : mergePackage other package = (do
    if ((← get).package? package.id).isSome then
      fail (.resource (.packageExists package.id))
    let node ← onTree (BlockTree.importNode other.tree package.node)
    let copy ← package.rebind other.tree (← get).tree node
    let _ ← remapCopy other package.id copy
    onTree (BlockTree.addChild (← get).packagesNode node)
    modify fun table => { table with packages := table.packages ++ [copy] }) := rfl

variable {table other final : Table} {package : Package}

/-- Where the merge of a package ends. -/
theorem mergePackage_ensures (sound : table.Sound) (also : other.Sound) (inside : package ∈ other.packages) :
    (mergePackage other package).Ensures table
      (fun _ final => ∃ copy pairs first second tree pool owner below,
        CopyAdded table other package copy pairs first second tree pool owner below final)
      (Extended table) := by
  have start : Extended table table := ⟨.refl sound.linked, .refl _, rfl⟩
  have held := also.held package inside
  obtain ⟨shape, found, _⟩ := held.node
  rw [mergePackage_eq]
  refine .behind (Step.get_apply _) ?_
  cases absent : table.package? package.id with
  | some existing => exact .stop rfl start
  | none =>
      have import' := BlockTree.importNode_ensures also.linked.toForest (by rw [found]; rfl)
        sound.linked.toForest
      cases run : BlockTree.importNode other.tree package.node table.tree with
      | error fault first =>
          have grows := (import'.error run).enlarged.grows sound.linked
          have fails : onTree (BlockTree.importNode other.tree package.node) table =
              .error fault { table with tree := first } := by
            rw [onTree, Step.onPart, run]
          exact .stop fails ⟨grows, .refl _, rfl⟩
      | ok node first =>
          obtain ⟨rfl, pairs, imported⟩ := import'.ok run
          have grows := imported.enlarged.grows sound.linked
          refine .behind (Step.onPart_eq_ok.2 ⟨first, run, rfl⟩) (.behind (Step.get_apply _) ?_)
          refine .check ⟨grows, .refl _, rfl⟩ fun copy rebound => ?_
          obtain ⟨node, rebound⟩ := Package.rebind_eq_ok rebound
          have copied := held.copied imported node rebound
          have remap := Package.remapStrings_ensures (adoptString_along other.strings) copied.nodup
            grows.linked copied.holds table.strings
          have grown {tree : BlockTree} (rewritten : BlockTree.Rewritten (Package.OfChunks first
              ((copy.chunks.filter (·.1 == .typeEntries)).map Prod.snd)) first tree) :
              BlockTree.Grows table.tree.nodes.size table.tree tree :=
            grows.trans (rewritten.grows grows.linked fun id inside =>
              copied.low_of_ofChunks grows.linked (by rw [node]; rfl) inside)
          cases run : copy.remapStrings (adoptString other.strings) (first, table.strings) with
          | error fault state =>
              obtain ⟨rewritten, strings⟩ := remap.error run
              have fails : remapCopy other package.id copy { table with tree := first } =
                  .error (fault.within (Package.title package.id)) { table with
                    tree := state.1
                    strings := state.2 } := by
                simp only [remapCopy, Step.within, Step.onPart, run]
              exact .stop fails ⟨grown rewritten, strings, rfl⟩
          | ok count state =>
              obtain ⟨rewritten, strings, remapped⟩ := remap.ok run
              have runs : remapCopy other package.id copy { table with tree := first } =
                  .ok count { table with
                    tree := state.1
                    strings := state.2 } := by
                simp only [remapCopy, Step.within, Step.onPart, run]
              have later := grown rewritten
              obtain ⟨owner, above, container, _⟩ := (sound.grown later).owner
              have held := copied.congr grows.linked rewritten.shapes
              obtain ⟨below, live, _⟩ := held.owner
              have orphan : below.parent = none := by
                have orphan := imported.orphan
                rw [← rewritten.parent?_eq, ← node, BlockTree.parent?, live] at orphan
                exact orphan
              obtain ⟨_, low, _⟩ := sound.node
              have order : table.packagesNode.index < copy.node.index := by
                rw [node]
                exact BlockTree.index_lt_of_shape? low
              obtain ⟨tree, run', attached⟩ := later.linked.addChild above container live orphan order
              refine .behind runs (.behind (Step.get_apply _) (.behind
                (Step.onPart_eq_ok.2 ⟨tree, node ▸ run', rfl⟩) (.of_ok rfl ?_)))
              exact ⟨copy, pairs, first, state.1, tree, state.2, owner, below, {
                absent, imported, node, rebound, rewritten, held, strings, remapped, above, live, orphan, attached
                grows := later
                final := rfl }⟩

theorem CopyAdded.sound {copy : Package} {pairs : NodeMap} {first second tree : BlockTree} {pool : StringPool}
    {owner below : Node} (added : CopyAdded table other package copy pairs first second tree pool owner below final)
    (sound : table.Sound) : final.Sound := by
  rw [added.final]
  exact (sound.grown added.grows).add added.held added.above added.live added.orphan added.attached

theorem Extended.sound (extended : Extended table final) (sound : table.Sound) : final.Sound := by
  rw [extended.rest]
  exact sound.grown extended.grows

theorem merge_sound (sound : table.Sound) (also : other.Sound) :
    (merge other).Ensures table (fun _ => Sound) Sound := by
  have row (packages : List Package) (part : ∀ package ∈ packages, package ∈ other.packages) (table : Table)
      (sound : table.Sound) : (packages.forM (mergePackage other)).Ensures table (fun _ => Sound) Sound :=
    .forM (fun package inside table sound => (mergePackage_ensures sound also (part package inside)).imp
      (fun _ _ ⟨_, _, _, _, _, _, _, _, added⟩ => added.sound sound) fun _ extended => extended.sound sound)
      sound
  unfold merge
  exact (row _ (fun _ inside => inside) table sound).bind fun _ _ sound => .of_ok rfl sound

/-- Every table that is reached from sound tables is sound. -/
theorem Reached.sound {start : Table → Prop} (first : ∀ table, start table → table.Sound)
    (reached : Reached start table) : table.Sound := by
  induction reached with
  | start here => exact first _ here
  | edit edit _ ends ih => exact edit.sound ih ends
  | merge _ _ ends ih also =>
      rcases ends with ⟨_, run⟩ | ⟨_, run⟩
      · exact (merge_sound ih also).ok run
      · exact (merge_sound ih also).error run

/-- The string values of a type chunk name texts in a pool that the values of another chunk name in another
pool, and the chunks have the same bytes besides. -/
structure Translated (source target : StringPool) (chunk copy : Bytes) : Prop where
  size : copy.size = chunk.size
  slots : TypeChunk.slots copy = TypeChunk.slots chunk
  others : ∀ place, (∀ slot ∈ TypeChunk.slots chunk, place < slot ∨ slot + 4 ≤ place) →
    copy[place]? = chunk[place]?
  named : ∀ slot ∈ TypeChunk.slots chunk, ∃ old new text, chunk.getWord32? slot = some old ∧
    copy.getWord32? slot = some new ∧ source.get? old = some text ∧ target.Names new text

theorem Translated.extends {source target more : StringPool} {chunk copy : Bytes}
    (translated : Translated source target chunk copy) (grows : target.Extends more) :
    Translated source more chunk copy where
  size := translated.size
  slots := translated.slots
  others := translated.others
  named slot inside := by
    obtain ⟨old, new, text, before, behind, named, names⟩ := translated.named slot inside
    exact ⟨old, new, text, before, behind, named, names.extends grows⟩

/-- The remap of a chunk whose string indexes stand apart from its fields and from each other. -/
theorem translated_of_rewrites {source pool target : StringPool} {chunk copy : Bytes} {positions : List Nat}
    (rewrites : Rewrites (adoptString source) positions (chunk, pool) (copy, target))
    (apart : TypeChunk.Apart chunk) (slots : positions = TypeChunk.slots chunk) :
    Translated source target chunk copy := by
  subst slots
  exact {
    size := rewrites.size
    slots := TypeChunk.slots_congr (rewrites.agrees fun slot inside field within =>
      apart.fields slot inside field within)
    others := fun place outside => rewrites.getElem? outside
    named := fun slot inside => by
      obtain ⟨old, new, before, behind, found, image, put, later⟩ :=
        rewrites.image (adoptString_along source) apart.slots inside
      obtain ⟨text, named, _, names⟩ := adoptString_eq_ok image
      exact ⟨old, new, text, found, put, named, names.extends later⟩ }

/-- A chunk has the bytes of another one, or is a type chunk with translated string values. -/
structure ChunkCopied (source target : StringPool) (chunk copy : ChunkType × List UInt8) : Prop where
  type : copy.1 = chunk.1
  verbatim : chunk.1 ≠ .typeEntries → copy.2 = chunk.2
  translated : chunk.1 = .typeEntries → Translated source target chunk.2.toArray copy.2.toArray

/-- A package of a table has the id, the name, the strings and the chunks of another table's package. -/
structure PackageCopied (other final : Table) (package copy : Package) : Prop where
  id : copy.id = package.id
  name : copy.name = package.name
  types : copy.typeStrings.map PoolSlot.pool = package.typeStrings.map PoolSlot.pool
  keys : copy.keyStrings.map PoolSlot.pool = package.keyStrings.map PoolSlot.pool
  chunks : List.Forall₂ (ChunkCopied other.strings final.strings) (package.contents other.tree)
    (copy.contents final.tree)

/-- A copy stays one while its chunks keep their bytes and the strings keep their places. -/
theorem PackageCopied.extends {other between final : Table} {package copy : Package}
    (copied : PackageCopied other between package copy)
    (contents : copy.contents final.tree = copy.contents between.tree)
    (grows : between.strings.Extends final.strings) : PackageCopied other final package copy where
  id := copied.id
  name := copied.name
  types := copied.types
  keys := copied.keys
  chunks := by
    rw [contents]
    exact copied.chunks.imp fun _ _ chunk =>
      ⟨chunk.type, chunk.verbatim, fun typed => (chunk.translated typed).extends grows⟩

end Table

namespace Package

variable {tree final : BlockTree} {package : Package}

/-- The chunks of a package keep their bytes as long as nothing below its node changes. -/
theorem Held.contents_eq (held : package.Held tree) (linked : tree.Linked)
    (same : ∀ id, tree.Owns package.node id → id ≠ package.node → final.node? id = tree.node? id) :
    package.contents final = package.contents tree := by
  refine List.map_congr_left fun chunk inside => congrArg (Prod.mk chunk.1) ?_
  obtain ⟨head, body, holds⟩ := held.holds chunk inside
  obtain ⟨front, rest, headBytes, bodyBytes, whole⟩ := holds.leaves
  have owned := held.owns inside
  obtain ⟨shape, live, _⟩ := held.node
  have low : package.node.index < chunk.2.index :=
    linked.lt live (BlockTree.children_of_shape? live ▸ held.inside chunk inside)
  have leaf (id : NodeId) (child : id ∈ tree.children chunk.2) : final.node? id = tree.node? id := by
    refine same id (owned.of_mem_children child) (BlockTree.ne_of_index_lt ?_).symm
    obtain ⟨shape, here, _⟩ := holds.node
    exact Nat.lt_trans low (linked.lt here (BlockTree.children_of_shape? here ▸ child))
  have children := holds.children
  have atHead := leaf head (by rw [children]; simp)
  have atBody := leaf body (by rw [children]; simp)
  have atNode := same chunk.2 owned (BlockTree.ne_of_index_lt low).symm
  have holds' : final.HoldsChunk chunk.2 head body := by
    refine ⟨?_, ?_, ?_⟩
    · rw [BlockTree.shape?_of_node? atNode]
      exact holds.node
    · rw [BlockTree.shape?_of_node? atHead]
      exact holds.head
    · rw [BlockTree.shape?_of_node? atBody]
      exact holds.body
  rw [holds'.toBytes_eq ((BlockTree.leaf_congr atHead).trans headBytes)
    ((BlockTree.leaf_congr atBody).trans bodyBytes), whole]

/-- The chunks of a package keep their bytes while nodes are added. -/
theorem Held.contents_grown (held : package.Held tree) (linked : tree.Linked)
    (grows : BlockTree.Grows tree.nodes.size tree final) : package.contents final = package.contents tree :=
  held.contents_eq linked fun id owned _ => by
    obtain ⟨_, found, _⟩ := held.node
    obtain ⟨shape, live⟩ := owned.live linked.toForest found
    exact grows.kept id (BlockTree.index_lt_of_shape? live)

end Package

namespace Table

variable {table other final : Table} {package copy : Package}

/-- No string value of a table's type chunks overlaps a field of its chunk or another string value. -/
def Apart (table : Table) : Prop :=
  ∀ package ∈ table.packages, ∀ chunk ∈ package.chunks, chunk.1 = .typeEntries →
    TypeChunk.Apart (table.tree.toBytes chunk.2).toArray

instance (table : Table) : Decidable table.Apart :=
  inferInstanceAs (Decidable (∀ package ∈ table.packages, ∀ chunk ∈ package.chunks, chunk.1 = .typeEntries →
    TypeChunk.Apart (table.tree.toBytes chunk.2).toArray))

theorem slots_copied {old new : List NodeId} {slot image : Option PoolSlot}
    (same : Option.Rel (Package.SlotCopied old new) slot image) :
    image.map PoolSlot.pool = slot.map PoolSlot.pool := by
  cases same with
  | some here => exact congrArg some here.pool
  | none => rfl

section

variable {pairs : NodeMap} {first second tree : BlockTree} {pool : StringPool} {owner below : Node}

/-- The leaves of a chunk that is no type chunk are not rewritten. -/
theorem CopyAdded.verbatim
    (added : CopyAdded table other package copy pairs first second tree pool owner below final)
    (held : copy.Held first) {chunk : ChunkType × NodeId} (inside : chunk ∈ copy.chunks)
    (other : chunk.1 ≠ .typeEntries) {head body : NodeId} (holds : first.HoldsChunk chunk.2 head body) :
    second.leaf head = first.leaf head ∧ second.leaf body = first.leaf body := by
  have apart (node : NodeId) (listed : node ∈ (copy.chunks.filter (·.1 == .typeEntries)).map Prod.snd) :
      node ≠ chunk.2 := by
    obtain ⟨typed, member, rfl⟩ := List.mem_map.1 listed
    obtain ⟨member, type⟩ := List.mem_filter.1 member
    intro same
    cases List.inj_on_of_nodup_map held.nodup member inside same
    exact other (by simpa using type)
  have forest := added.imported.enlarged.forest
  exact ⟨added.rewritten.leaf_eq fun ⟨node, listed, child⟩ =>
      (holds.not_mem_children forest (apart node listed)).1 child,
    added.rewritten.leaf_eq fun ⟨node, listed, child⟩ =>
      (holds.not_mem_children forest (apart node listed)).2 child⟩

/-- A copy that is added has the contents of the package that it was made from. -/
theorem CopyAdded.copied
    (added : CopyAdded table other package copy pairs first second tree pool owner below final)
    (also : other.Sound) (inside : package ∈ other.packages) (apart : other.Apart) :
    PackageCopied other final package copy := by
  have source := also.held package inside
  have held := source.copied added.imported added.node added.rebound
  have row := added.imported.children added.imported.root
  have contents : copy.contents tree = copy.contents second :=
    added.held.contents_eq added.grows.linked fun id owned notNode => by
      have low := owned.index_le added.grows.linked
      have order := added.attached.order
      exact added.attached.others id (BlockTree.ne_of_index_lt (by omega)).symm notNode
  rw [added.final]
  refine ⟨added.rebound.id, added.rebound.name, slots_copied added.rebound.types,
    slots_copied added.rebound.keys, ?_⟩
  simp only [contents]
  unfold Package.contents
  rw [List.forall₂_map_left_iff, List.forall₂_map_right_iff]
  refine forall₂_imp_mem added.rebound.chunks fun chunk listed image listed' ⟨type, partners⟩ => ?_
  obtain ⟨head, body, holds⟩ := source.holds chunk listed
  obtain ⟨front, rest, headBytes, bodyBytes, whole⟩ := holds.leaves
  obtain ⟨head', body', holds', here, there⟩ := added.imported.holdsChunk (partners.listed row) holds
  have headBytes' := added.imported.leaf here headBytes
  have bodyBytes' := added.imported.leaf there bodyBytes
  have behind := holds'.congr added.rewritten.shapes
  refine ⟨type, fun verbatim => ?_, fun typed => ?_⟩
  · obtain ⟨sameHead, sameBody⟩ := added.verbatim held listed' (type ▸ verbatim) holds'
    change second.toBytes image.2 = other.tree.toBytes chunk.2
    rw [behind.toBytes_eq (sameHead.trans headBytes') (sameBody.trans bodyBytes'), whole]
  · obtain ⟨front', rest', bytes, positions, before, later, done⟩ :=
      added.remapped image listed' (type.trans typed) head' body' holds'
    cases headBytes'.symm.trans done.oldHead
    cases bodyBytes'.symm.trans done.oldBody
    have chunkBytes : (other.tree.toBytes chunk.2).toArray = front ++ rest := by
      rw [whole]
      simp
    have copyBytes : (second.toBytes image.2).toArray = bytes := by
      have split : front.size ≤ bytes.size := by
        have size := done.rewrites.size
        simp only [Array.size_append] at size
        omega
      rw [behind.toBytes_eq done.newHead done.newBody, ← Array.toList_append, Array.extract_append_extract]
      simp [Nat.max_eq_right split]
    have separate := apart package inside chunk listed typed
    rw [chunkBytes] at separate
    simp only [chunkBytes, copyBytes]
    exact (translated_of_rewrites done.rewrites separate (done.slots separate)).extends done.later

/-- The packages that a table had keep their contents when a copy is added. -/
theorem CopyAdded.contents
    (added : CopyAdded table other package copy pairs first second tree pool owner below final)
    (sound : table.Sound) {old : Package} (inside : old ∈ table.packages) :
    old.contents final.tree = old.contents table.tree := by
  have grown : Houses second table.packagesNode table.packages := sound.grown added.grows
  have orphan : second.parent? copy.node = none := by
    rw [BlockTree.parent?, added.live]
    exact added.orphan
  have attached : old.contents tree = old.contents second :=
    (grown.held old inside).contents_eq grown.linked fun id owned _ => by
      refine added.attached.others id ?_ ?_
      · rintro rfl
        exact grown.not_owns inside owned
      · rintro rfl
        exact grown.not_owns_orphan inside orphan owned
  rw [added.final]
  exact attached.trans ((sound.held old inside).contents_grown sound.linked added.grows)

end

end Table
end Resource
end DexArsc
