/-
Copies of packages: the nodes of a copy are found by the places of the nodes that they stand for, and
the string values of its type chunks are remapped chunk by chunk.
-/

import DexArsc.Proofs.BlockTree.Copy
import DexArsc.Proofs.Resource.Chunk
import DexArsc.Proofs.Resource.StringValue
import DexArsc.Resource.Package

namespace DexArsc

namespace Except

variable {α β : Type}

/-- The results of a list stand at the places of its elements. -/
theorem forall₂_of_mapM {step : α → Except Fault β} {values : List α} {results : List β}
    (run : values.mapM step = .ok results) :
    List.Forall₂ (fun value result => step value = .ok result) values results := by
  induction values generalizing results with
  | nil =>
      cases run
      exact .nil
  | cons first rest ih =>
      rw [List.mapM_cons] at run
      obtain ⟨result, here, run⟩ := bind_eq_ok.1 run
      obtain ⟨others, later, run⟩ := bind_eq_ok.1 run
      cases run
      exact .cons here (ih later)

theorem option_mapM_eq_ok {step : α → Except Fault β} {value : Option α} {result : Option β} :
    value.mapM step = .ok result ↔ Option.Rel (fun value result => step value = .ok result) value result := by
  cases value with
  | none =>
      constructor
      · intro run
        cases run
        exact .none
      · rintro ⟨⟩
        rfl
  | some value =>
      rw [Option.mapM_some]
      constructor
      · intro run
        cases here : step value with
        | error fault =>
            rw [here] at run
            cases run
        | ok image =>
            rw [here] at run
            cases run
            exact .some here
      · rintro (here | _)
        rw [here]
        rfl

end Except

namespace Resource.Package

/-- Two nodes stand at the same place in two rows. -/
def Partners (old new : List NodeId) (id image : NodeId) : Prop :=
  ∃ place : Nat, old[place]? = some id ∧ new[place]? = some image

/-- A copied pool is the pool, at the partner of its leaf. -/
structure SlotCopied (old new : List NodeId) (slot image : PoolSlot) : Prop where
  pool : image.pool = slot.pool
  node : Partners old new slot.node image.node

/-- A package has the contents of another one, at the partners of its nodes. -/
structure Rebound (old new : List NodeId) (package copy : Package) : Prop where
  id : copy.id = package.id
  name : copy.name = package.name
  header : Partners old new package.header copy.header
  types : Option.Rel (SlotCopied old new) package.typeStrings copy.typeStrings
  keys : Option.Rel (SlotCopied old new) package.keyStrings copy.keyStrings
  chunks : List.Forall₂ (fun chunk image => image.1 = chunk.1 ∧ Partners old new chunk.2 image.2)
    package.chunks copy.chunks

variable {source tree final : BlockTree} {package copy : Package} {node : NodeId}

/-- The node at the place of an id in another row. -/
def partner (old new : List NodeId) (package : UInt32) (id : NodeId) : Except Fault NodeId :=
  match (old.idxOf? id).bind (new[·]?) with
  | some copy => .ok copy
  | none => fail (.resource (.lostChild package))

theorem partner_eq_ok {old new : List NodeId} {number : UInt32} {id image : NodeId}
    (found : partner old new number id = .ok image) : Partners old new id image := by
  unfold partner at found
  split at found
  · rename_i copy here
    cases found
    obtain ⟨place, listed, there⟩ := Option.bind_eq_some_iff.1 here
    obtain ⟨inside, same, _⟩ := List.idxOf?_eq_some_iff.1 listed
    exact ⟨place, by rw [List.getElem?_eq_getElem inside, same], there⟩
  · cases found

/-- The pool of a package at the partner of its leaf. -/
def partnerSlot (old new : List NodeId) (package : UInt32) (slot : PoolSlot) : Except Fault PoolSlot := do
  return { slot with node := ← partner old new package slot.node }

theorem partnerSlot_eq_ok {old new : List NodeId} {number : UInt32} {slot image : PoolSlot}
    (found : partnerSlot old new number slot = .ok image) : SlotCopied old new slot image := by
  obtain ⟨node, here, same⟩ := Except.bind_eq_ok.1 found
  cases same
  exact ⟨rfl, partner_eq_ok here⟩

theorem slots_of_mapM {old new : List NodeId} {number : UInt32} {slot image : Option PoolSlot}
    (found : slot.mapM (partnerSlot old new number) = .ok image) :
    Option.Rel (SlotCopied old new) slot image := by
  cases Except.option_mapM_eq_ok.1 found with
  | some here => exact .some (partnerSlot_eq_ok here)
  | none => exact .none

theorem rebind_eq (package : Package) (source tree : BlockTree) (node : NodeId) :
    package.rebind source tree node = (do
      let find := partner (source.children package.node) (tree.children node) package.id
      let chunks ← package.chunks.mapM fun (type, id) => return (type, ← find id)
      let header ← find package.header
      let slot := partnerSlot (source.children package.node) (tree.children node) package.id
      let typeStrings ← package.typeStrings.mapM slot
      let keyStrings ← package.keyStrings.mapM slot
      return { package with node, header, typeStrings, keyStrings, chunks }) := rfl

theorem rebind_eq_ok (run : package.rebind source tree node = .ok copy) :
    copy.node = node ∧ Rebound (source.children package.node) (tree.children node) package copy := by
  rw [rebind_eq] at run
  obtain ⟨chunks, listed, run⟩ := Except.bind_eq_ok.1 run
  obtain ⟨header, head, run⟩ := Except.bind_eq_ok.1 run
  obtain ⟨types, typed, run⟩ := Except.bind_eq_ok.1 run
  obtain ⟨keys, keyed, same⟩ := Except.bind_eq_ok.1 run
  cases same
  refine ⟨rfl, rfl, rfl, partner_eq_ok head, ?_, ?_, ?_⟩
  · exact slots_of_mapM typed
  · exact slots_of_mapM keyed
  · refine (Except.forall₂_of_mapM listed).imp fun chunk image here => ?_
    obtain ⟨id, found, same⟩ := Except.bind_eq_ok.1 here
    cases same
    exact ⟨rfl, partner_eq_ok found⟩

variable {state : Type} {map : StringMap state} {inner next : state} {head body : NodeId}

/-- The nodes that belong to the chunks of a row. -/
def OfChunks (tree : BlockTree) (row : List NodeId) (id : NodeId) : Prop :=
  ∃ node ∈ row, id ∈ tree.children node

theorem ofChunks_congr {row : List NodeId} (same : final.shape? = tree.shape?) :
    OfChunks final row = OfChunks tree row := by
  funext id
  unfold OfChunks
  simp only [BlockTree.children_eq, same]

theorem OfChunks.cons {node : NodeId} {row : List NodeId} {id : NodeId} (inside : OfChunks tree row id) :
    OfChunks tree (node :: row) id :=
  inside.imp fun _ => And.imp_left (List.mem_cons_of_mem _)

theorem OfChunks.of_first {node : NodeId} {row : List NodeId} {id : NodeId}
    (inside : OfChunks tree [node] id) : OfChunks tree (node :: row) id := by
  obtain ⟨other, listed, here⟩ := inside
  exact ⟨node, List.mem_cons_self, List.mem_singleton.1 listed ▸ here⟩

/-- The string indexes of a chunk are replaced by their images, as found on the way. -/
structure ChunkRemapped (map : StringMap state) (related : state → state → Prop) (head body : NodeId)
    (tree : BlockTree) (inner : state) (final : BlockTree) (next : state) (front rest bytes : Bytes)
    (positions : List Nat) (before behind : state) : Prop where
  oldHead : tree.leaf head = .ok front
  oldBody : tree.leaf body = .ok rest
  earlier : related inner before
  rewrites : Rewrites map positions (front ++ rest, before) (bytes, behind)
  later : related behind next
  low : ∀ position ∈ positions, 4 ≤ position
  slots : TypeChunk.Apart (front ++ rest) → positions = TypeChunk.slots (front ++ rest)
  newHead : final.leaf head = .ok (bytes.extract 0 front.size)
  newBody : final.leaf body = .ok (bytes.extract front.size bytes.size)

/-- A chunk has been remapped on the way from one state to another. -/
def Remapped (map : StringMap state) (related : state → state → Prop) (head body : NodeId)
    (initial final : BlockTree × state) : Prop :=
  ∃ front rest bytes positions before behind, ChunkRemapped map related head body initial.1 initial.2
    final.1 final.2 front rest bytes positions before behind

/-- Where the remap of a chunk ends. One that fails leaves the chunk as it was. -/
theorem remapChunk_ensures {related : state → state → Prop} (along : map.Along related) (linked : tree.Linked)
    (holds : tree.HoldsChunk node head body) (inner : state) :
    (remapChunk map node).Ensures (tree, inner)
      (fun _ final => BlockTree.Rewritten (OfChunks tree [node]) tree final.1 ∧ related inner final.2 ∧
        Remapped map related head body (tree, inner) final)
      (fun final => final.1 = tree ∧ related inner final.2) := by
  obtain ⟨front, rest, headLeaf, bodyLeaf, _⟩ := holds.leaves
  have different := holds.ne linked
  obtain ⟨headNode, headFound, headKind⟩ := BlockTree.leaf_eq_ok.1 headLeaf
  obtain ⟨bodyNode, bodyFound, bodyKind⟩ := BlockTree.leaf_eq_ok.1 bodyLeaf
  have reaches := remapStrings_leads along (front ++ rest, inner)
  unfold remapChunk Step.Ensures
  simp only [Step.bind_apply, Step.get_apply, holds.children, headLeaf, bodyLeaf, Step.monadLift_ok]
  cases run : Resource.remapStrings map (front ++ rest, inner) with
  | error fault final =>
      obtain ⟨chunk, next⟩ := final
      exact ⟨rfl, reaches.ensures.error run⟩
  | ok count final =>
      obtain ⟨bytes, next⟩ := final
      obtain ⟨positions, rewrites, low, _, inside⟩ := remapStrings_eq_ok run
      obtain ⟨first, run₁, put⟩ := linked.setLeaf headFound headKind (bytes.extract 0 front.size)
      obtain ⟨second, run₂, put'⟩ := put.linked.setLeaf ((put.others _ different.symm).trans bodyFound)
        bodyKind (bytes.extract front.size bytes.size)
      have whole : (do
          BlockTree.setLeaf head (bytes.extract 0 front.size)
          BlockTree.setLeaf body (bytes.extract front.size bytes.size)) tree = .ok () second := by
        rw [Step.bind_ok run₁]
        exact run₂
      have part : Step.onPart Prod.fst (fun tree (x : BlockTree × state) => (tree, x.2)) (do
          BlockTree.setLeaf head (bytes.extract 0 front.size)
          BlockTree.setLeaf body (bytes.extract front.size bytes.size)) (tree, next) =
            .ok () (second, next) :=
        Step.onPart_eq_ok.2 ⟨second, whole, rfl⟩
      have frame : BlockTree.Rewritten (OfChunks tree [node]) tree second := {
        size := put'.size.trans put.size
        shapes := (put'.shape?_eq ((put.others _ different.symm).trans bodyFound)
          (BlockTree.shape_of_leaf bodyKind _ _ _)).trans
            (put.shape?_eq headFound (BlockTree.shape_of_leaf headKind _ _ _))
        others := fun id outside => by
          have apart : id ∉ tree.children node := fun inside => outside ⟨node, List.mem_cons_self, inside⟩
          rw [holds.children, List.mem_pair, not_or] at apart
          exact (put'.others id apart.2).trans (put.others id apart.1) }
      simp only [Step.bind_apply, Step.set_apply]
      rw [part]
      exact ⟨frame, reaches.ensures.ok run, front, rest, bytes, positions, inner, next, {
        oldHead := headLeaf
        oldBody := bodyLeaf
        earlier := along.refl inner
        rewrites
        later := along.refl next
        low
        slots := fun apart => (inside apart).1
        newHead := BlockTree.leaf_eq_ok.2 ⟨_, (put'.others _ different).trans put.here, rfl⟩
        newBody := BlockTree.leaf_eq_ok.2 ⟨_, put'.here, rfl⟩ }⟩

/-- Where the remap of a row of chunks ends. -/
theorem remapRow_ensures {related : state → state → Prop} (along : map.Along related) {row : List NodeId} (nodup : row.Nodup)
    (linked : tree.Linked) (holds : ∀ node ∈ row, ∃ head body, tree.HoldsChunk node head body)
    (count : Nat) (inner : state) :
    (row.foldlM (fun count node => do return count + (← remapChunk map node) :
        Nat → NodeId → Step (BlockTree × state) Nat) count).Ensures (tree, inner)
      (fun _ final => BlockTree.Rewritten (OfChunks tree row) tree final.1 ∧ related inner final.2 ∧ ∀ node ∈ row,
        ∀ head body, tree.HoldsChunk node head body → Remapped map related head body (tree, inner) final)
      (fun final => BlockTree.Rewritten (OfChunks tree row) tree final.1 ∧ related inner final.2) := by
  induction row generalizing tree count inner with
  | nil => exact Step.Ensures.of_ok rfl ⟨.refl _ tree, along.refl inner, by simp⟩
  | cons node row ih =>
      obtain ⟨head, body, here⟩ := holds node List.mem_cons_self
      obtain ⟨apart, nodup⟩ := List.nodup_cons.1 nodup
      rw [List.foldlM_cons]
      have first : (do return count + (← remapChunk map node) : Step (BlockTree × state) Nat).Ensures
          (tree, inner)
          (fun _ final => BlockTree.Rewritten (OfChunks tree [node]) tree final.1 ∧ related inner final.2 ∧
            Remapped map related head body (tree, inner) final)
          (fun final => BlockTree.Rewritten (OfChunks tree (node :: row)) tree final.1 ∧ related inner final.2) :=
        .bind ((remapChunk_ensures along linked here inner).imp (fun _ _ done => done)
          fun final ⟨same, passed⟩ => ⟨by rw [same]; exact .refl _ tree, passed⟩)
            fun number final done => .of_ok rfl done
      refine first.bind fun count ⟨between, reached⟩ ⟨frame, passed, remapped⟩ => ?_
      have linked' : between.Linked := frame.linked linked
      have whole : BlockTree.Rewritten (OfChunks tree (node :: row)) tree between :=
        frame.mono fun _ => OfChunks.of_first
      have more {final : BlockTree} (rest : BlockTree.Rewritten (OfChunks between row) between final) :
          BlockTree.Rewritten (OfChunks tree (node :: row)) tree final :=
        whole.trans (rest.mono fun id inside => by
          rw [ofChunks_congr frame.shapes] at inside
          exact inside.cons)
      have later := ih nodup linked' (fun other inside => by
        obtain ⟨head, body, there⟩ := holds other (List.mem_cons_of_mem _ inside)
        exact ⟨head, body, there.congr frame.shapes⟩) count reached
      refine later.imp (fun _ final ⟨rest, behind, each⟩ => ⟨more rest, along.trans passed behind,
        fun other inside head' body' there => ?_⟩)
        fun final ⟨rest, behind⟩ => ⟨more rest, along.trans passed behind⟩
      by_cases same : other = node
      · subst same
        have equal := here.children.symm.trans there.children
        cases equal
        have outside (next : NodeId) (listed : next ∈ row) :=
          (here.congr frame.shapes).not_mem_children linked'.toForest (fun same => apart (same ▸ listed) :
            next ≠ other)
        obtain ⟨front, back, bytes, positions, earlier, later, done⟩ := remapped
        exact ⟨front, back, bytes, positions, earlier, later, {
          done with
          later := along.trans done.later behind
          newHead := (BlockTree.leaf_congr (rest.others head fun ⟨next, listed, inside⟩ =>
            (outside next listed).1 inside)).trans done.newHead
          newBody := (BlockTree.leaf_congr (rest.others body fun ⟨next, listed, inside⟩ =>
            (outside next listed).2 inside)).trans done.newBody }⟩
      · have listed := (List.mem_cons.1 inside).resolve_left same
        have outside := there.not_mem_children linked.toForest (fun equal => same equal.symm : node ≠ other)
        obtain ⟨front, back, bytes, positions, earlier, later, done⟩ :=
          each other listed head' body' (there.congr frame.shapes)
        exact ⟨front, back, bytes, positions, earlier, later, {
          done with
          oldHead := (BlockTree.leaf_congr (frame.others head' fun ⟨next, equal, inside⟩ =>
            outside.1 (List.mem_singleton.1 equal ▸ inside))).symm.trans done.oldHead
          oldBody := (BlockTree.leaf_congr (frame.others body' fun ⟨next, equal, inside⟩ =>
            outside.2 (List.mem_singleton.1 equal ▸ inside))).symm.trans done.oldBody
          earlier := along.trans passed done.earlier }⟩

/-- Where the remap of a package ends: only the bytes of its type chunks are others. -/
theorem remapStrings_ensures {related : state → state → Prop} (along : map.Along related)
    (nodup : (package.chunks.map Prod.snd).Nodup) (linked : tree.Linked)
    (holds : ∀ chunk ∈ package.chunks, ∃ head body, tree.HoldsChunk chunk.2 head body) (inner : state) :
    (package.remapStrings map).Ensures (tree, inner)
      (fun _ final => BlockTree.Rewritten (OfChunks tree ((package.chunks.filter (·.1 == .typeEntries)).map Prod.snd)) tree final.1 ∧
        related inner final.2 ∧ ∀ chunk ∈ package.chunks, chunk.1 = .typeEntries → ∀ head body,
          tree.HoldsChunk chunk.2 head body → Remapped map related head body (tree, inner) final)
      (fun final => BlockTree.Rewritten (OfChunks tree ((package.chunks.filter (·.1 == .typeEntries)).map Prod.snd)) tree final.1 ∧
        related inner final.2) := by
  have row := @remapRow_ensures tree state map related along
    ((package.chunks.filter (·.1 == .typeEntries)).map Prod.snd)
    ((List.filter_sublist.map _).nodup nodup) linked (fun node inside => by
      obtain ⟨chunk, listed, rfl⟩ := List.mem_map.1 inside
      exact holds chunk (List.mem_filter.1 listed).1) 0 inner
  have same : package.remapStrings map = ((package.chunks.filter (·.1 == .typeEntries)).map Prod.snd).foldlM
      (fun count node => do return count + (← remapChunk map node) :
        Nat → NodeId → Step (BlockTree × state) Nat) 0 := by
    rw [List.foldlM_map]
    rfl
  rw [same]
  exact row.imp (fun _ final ⟨frame, reached, each⟩ => ⟨frame, reached, fun chunk inside typed =>
    each chunk.2 (List.mem_map_of_mem (List.mem_filter.2 ⟨inside, by rw [typed]; rfl⟩))⟩) fun _ done => done

end Resource.Package
end DexArsc
