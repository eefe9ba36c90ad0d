/-
Tables that are read and written. A refresh of a table that was read writes nothing but the names of its
packages, and the packages stand together in what is written.
-/

import DexArsc.Proofs.Resource.TableRead

namespace DexArsc.Resource

variable {tree final : BlockTree} {head : List UInt8} {fronts packs rests rows : List (List UInt8)}
  {packages : List Package}

/-- A package that stands in a tree has its name written anew by a refresh, which changes its header only. -/
theorem Package.StandsFor.refresh {package : Package} {bytes : List UInt8} (stands : package.StandsFor tree bytes)
    (linked : tree.Linked) : ∃ final leaf image, package.refresh tree = .ok () final ∧
      tree.Owns package.node package.header ∧ tree.node? package.header = some leaf ∧
      (∃ old, leaf.kind = .leaf old) ∧
      tree.Altered package.header { leaf with kind := .leaf image } final ∧
      package.StandsFor final (rewriteFront bytes) := by
  obtain ⟨front, rows, ids, rfl, framed, readable, stored⟩ := stands
  obtain ⟨final, leaf, run, live, altered, stored'⟩ := stored.refresh linked framed.long
  obtain ⟨_, headed, _⟩ := stored.headed
  obtain ⟨leaf', live', kind, _⟩ := headed.header
  cases live.symm.trans live'
  refine ⟨final, leaf, _, run, ?_, live, ⟨_, kind⟩, altered, rewriteFront front, rows, ids,
    rewriteFront_append framed.long _, framed.rewrite, readable.rewrite framed.long, stored'⟩
  exact BlockTree.Owns.top.of_mem_children (by rw [stored.children]; exact List.mem_cons_self)

namespace Table

/-- A refresh of one package. -/
theorem Nodes.refreshPackage {done later : List Package} {package : Package}
    {donePacks laterPacks : List (List UInt8)} {pack : List UInt8}
    (nodes : Nodes head fronts (donePacks ++ pack :: laterPacks) rests (done ++ package :: later) tree)
    (length : done.length = donePacks.length) : ∃ final, package.refresh tree = .ok () final ∧
      Nodes head fronts (donePacks ++ Package.rewriteFront pack :: laterPacks) rests (done ++ package :: later)
        final := by
  have linked := nodes.houses.linked
  have forest := linked.toForest
  obtain ⟨before, behind, headed, parts⟩ := nodes.parts
  have front := List.forall₂_take_append _ _ _ parts.middle
  have back := List.forall₂_drop_append _ _ _ parts.middle
  rw [← length, List.take_left] at front
  rw [← length, List.drop_left] at back
  cases back with
  | cons stands back =>
      obtain ⟨final, leaf, image, run, owns, live, ⟨old, kind⟩, altered, stands'⟩ := stands.refresh linked
      have linked' := altered.linked
      have core (id : NodeId) (apart : id ≠ package.header) : final.core? id = tree.core? id := by
        rw [BlockTree.core?, BlockTree.core?, altered.others id apart]
      have low : 2 < package.header.index :=
        Nat.lt_of_lt_of_le (parts.lowPackages package (by simp)) (owns.index_le linked)
      have other {third : Package} {bytes : List UInt8} (inside : third ∈ done ++ later)
          (here : third.StandsFor tree bytes) : third.StandsFor final bytes :=
        here.frame forest linked'.toForest fun id owned => core id (by
          rintro rfl
          exact nodes.houses.apart inside owned owns)
      have up (id : NodeId) (inside : id ∈ before ++ ⟨2⟩ :: behind) : tree.parent? id = some ⟨0⟩ := by
        obtain ⟨root, above, _, children, _⟩ := headed.node
        refine linked.down ⟨0⟩ root.shape id (BlockTree.shape?_of_some above) ?_
        change id ∈ root.children
        rw [children]
        exact List.mem_cons_of_mem _ inside
      have side {id : NodeId} {bytes : List UInt8} (inside : id ∈ before ++ behind)
          (here : tree.Spells id bytes) : final.Spells id bytes :=
        here.frame forest linked'.toForest fun below owned => core below (by
          rintro rfl
          have different : id ≠ ⟨2⟩ := (BlockTree.ne_of_index_lt (parts.low id inside)).symm
          have listed : id ∈ before ++ ⟨2⟩ :: behind := by
            rcases List.mem_append.1 inside with inside | inside <;> simp [inside]
          refine owned.apart forest (up id listed) (up ⟨2⟩ (by simp)) different ?_
          refine BlockTree.Owns.trans (BlockTree.Owns.top.of_mem_children ?_) owns
          rw [nodes.houses.children]
          simp)
      refine ⟨final, run, nodes.houses.congr (altered.shape?_eq live (BlockTree.shape_of_leaf kind _ _ _)), ?_, ?_⟩
      · refine ⟨before, behind, headed.frame (core _ ?_) (core _ ?_), {
          first := forall₂_imp_mem parts.first fun id inside _ _ here => side (List.mem_append_left _ inside) here
          middle := List.rel_append
            (forall₂_imp_mem front fun third inside _ _ here => other (List.mem_append_left _ inside) here)
            (.cons stands' (forall₂_imp_mem back fun third inside _ _ here =>
              other (List.mem_append_right _ inside) here))
          last := forall₂_imp_mem parts.last fun id inside _ _ here => side (List.mem_append_right _ inside) here
          low := parts.low
          lowPackages := parts.lowPackages }⟩
        · exact BlockTree.ne_of_index_lt (Nat.lt_trans (by decide) low)
        · exact BlockTree.ne_of_index_lt (Nat.lt_trans (by decide) low)
      · obtain ⟨node, here, none⟩ := nodes.container
        exact ⟨node, (altered.others _ (BlockTree.ne_of_index_lt low)).trans here, none⟩

/-- A refresh of the packages writes their names anew. -/
theorem Nodes.refreshPackages {table : Table} (nodes : Nodes head fronts packs rests packages table.tree) :
    ∃ final, (packages.forM fun package => onTree package.refresh) table = .ok () { table with tree := final } ∧
      Nodes head fronts (packs.map Package.rewriteFront) rests packages final := by
  suffices ∀ (later done : List Package) (laterPacks donePacks : List (List UInt8)) (table : Table),
      Nodes head fronts (donePacks ++ laterPacks) rests (done ++ later) table.tree →
      done.length = donePacks.length → ∃ final,
        (later.forM fun package => onTree package.refresh) table = .ok () { table with tree := final } ∧
          Nodes head fronts (donePacks ++ laterPacks.map Package.rewriteFront) rests (done ++ later) final by
    simpa using this packages [] packs [] table nodes rfl
  intro later
  induction later with
  | nil =>
      intro done laterPacks donePacks table nodes length
      obtain ⟨_, _, _, parts⟩ := nodes.parts
      have total := parts.middle.length_eq
      have none : laterPacks = [] := by
        rw [List.length_append, List.length_append, length] at total
        exact List.eq_nil_of_length_eq_zero (Nat.add_left_cancel total).symm
      subst none
      exact ⟨table.tree, rfl, nodes⟩
  | cons package later ih =>
      intro done laterPacks donePacks table nodes length
      obtain ⟨_, _, _, parts⟩ := nodes.parts
      have total := parts.middle.length_eq
      cases laterPacks with
      | nil =>
          rw [List.length_append, List.length_append, length] at total
          cases Nat.add_left_cancel total
      | cons pack laterPacks =>
          obtain ⟨between, run, nodes⟩ := nodes.refreshPackage length
          obtain ⟨final, rest, nodes⟩ := ih (done ++ [package]) laterPacks
            (donePacks ++ [Package.rewriteFront pack]) { table with tree := between } (by simpa using nodes)
            (by simp [length])
          refine ⟨final, ?_, by simpa using nodes⟩
          rw [Step.forM_cons]
          exact (Step.bind_ok (Step.onPart_eq_ok.2 ⟨between, run, rfl⟩)).trans rest

/-- The root of a table spells the table, when its header declares the size and the number of packages. -/
theorem Nodes.spells (nodes : Nodes head fronts packs rests packages tree) (long : headerSize ≤ head.length)
    (size : (Bytes.word head 4).toNat = (head ++ (fronts ++ packs ++ rests).flatten).length)
    (count : (Bytes.word head countPosition).toNat = packs.length) :
    tree.Spells ⟨0⟩ (head ++ (fronts ++ packs ++ rests).flatten) := by
  have forest := nodes.houses.linked.toForest
  obtain ⟨before, behind, headed, parts⟩ := nodes.parts
  obtain ⟨owner, found, container, children⟩ := nodes.houses.owner
  obtain ⟨_, here, none⟩ := nodes.container
  cases here.symm.trans found
  unfold headerSize at long
  have spelled : List.Forall₂ tree.Spells owner.children packs := by
    rw [children]
    exact List.forall₂_map_left_iff.2 (parts.middle.imp fun _ _ stands => stands.spells forest)
  have middle := BlockTree.Spells.container forest found container none spelled
  have row : List.Forall₂ tree.Spells (before ++ ⟨2⟩ :: behind) (fronts ++ packs.flatten :: rests) :=
    List.rel_append parts.first (.cons middle parts.last)
  have total : head ++ (fronts ++ packs.flatten :: rests).flatten = head ++ (fronts ++ packs ++ rests).flatten := by
    simp
  rw [← total]
  refine headed.spells forest row fun patch inside => ?_
  rcases List.mem_cons.1 inside with rfl | inside
  · refine ⟨4, rfl, by omega, by rintro _ ⟨⟩, ?_⟩
    change _ = (tree.toBytes ⟨0⟩).length
    rw [headed.toBytes forest row, size, total]
  · cases List.mem_singleton.1 inside
    refine ⟨countPosition, rfl, long, ?_, BlockTree.isLive_iff.2 ⟨owner, found⟩, ?_⟩
    · rintro _ ⟨⟩
      refine BlockTree.Owns.top.of_mem_children ?_
      rw [headed.children]
      simp
    · rw [count, nodes.houses.children, List.length_map, parts.middle.length_eq]

end Table

theorem rewriteRows_eq (rows : List (List UInt8)) : rewriteRows rows = leading (isOf .package) rows ++
    (rows.filter (isOf .package)).map Package.rewriteFront ++ trailing (isOf .package) rows := by
  obtain ⟨_, none, all, none'⟩ := grouped_regroup (isOf .package) rows
  have kept {row : List (List UInt8)} (none : ∀ bytes ∈ row, isOf .package bytes = false) :
      row.map rewritePiece = row :=
    (List.map_congr_left fun bytes inside => rewritePiece_of_other (none bytes inside)).trans (List.map_id _)
  have renamed : (rows.filter (isOf .package)).map rewritePiece =
      (rows.filter (isOf .package)).map Package.rewriteFront :=
    List.map_congr_left fun bytes inside => rewritePiece_of_package (all bytes inside)
  rw [rewriteRows, regroup, List.map_append, List.map_append, kept none, kept none', renamed]

namespace Table

variable {table : Table}

/-- A table that was read is written with its packages together and their names anew. -/
theorem Stored.toBytes (stored : table.Stored head rows) (fits : Fits head rows) :
    ∃ final, Table.toBytes table = .ok (head ++ (rewriteRows rows).flatten) final := by
  obtain ⟨tree, run, nodes⟩ := stored.nodes.refreshPackages
  obtain ⟨_, _, pool⟩ := stored.strings
  have still := StringPool.modified_of_read pool
  have fits' := fits.rewrite
  have long := fits.long
  unfold headerSize at long
  have size := fits'.isChunk.size
  rw [Bytes.word_append (by omega)] at size
  have count := fits'.count
  rw [filter_rewriteRows] at count
  rw [rewriteRows_eq] at size ⊢
  have spells := nodes.spells fits.long size count
  obtain ⟨final, refreshed, _, bytes⟩ := nodes.houses.linked.toForest.refresh_of_current spells.current
  refine ⟨{ table with tree := final }, ?_⟩
  have refresh : Table.refresh table =
      .ok (UInt64.ofNat (tree.toBytes ⟨0⟩).length) { table with tree := final } := by
    unfold Table.refresh
    rw [Step.bind_ok (Step.get_apply table), Step.bind_ok run, if_neg (by rw [still]; exact Bool.false_ne_true)]
    exact Step.onPart_eq_ok.2 ⟨final, stored.root ▸ refreshed, rfl⟩
  unfold Table.toBytes
  rw [Step.bind_ok refresh, Step.bind_ok (Step.get_apply _), Step.pure_apply]
  dsimp only
  rw [stored.root, bytes, spells.toBytes]

/-- What a table tells: its strings, its packages, and the bytes of the header and the other chunks. -/
@[ext] structure Content where
  strings : StringPool
  packages : List Package.Content
  others : List (List UInt8)

/-- The contents of a table. -/
def content (table : Table) : Content where
  strings := table.strings
  packages := table.packages.map fun package => package.content table.tree
  others := ((table.tree.children table.root).filter (· ≠ table.packagesNode)).map table.tree.toBytes

theorem Stored.others (stored : table.Stored head rows) :
    table.content.others = head :: rows.filter (!isOf .package ·) := by
  obtain ⟨before, behind, headed, parts⟩ := stored.nodes.parts
  have other (row : List NodeId) (low : ∀ id ∈ row, 2 < id.index) : row.filter (· ≠ ⟨2⟩) = row :=
    List.filter_eq_self.2 fun id inside => decide_eq_true (BlockTree.ne_of_index_lt (low id inside)).symm
  obtain ⟨leaf, live, kind, _⟩ := headed.header
  have row := List.rel_append parts.first parts.last
  rw [content, stored.root, stored.packagesNode, headed.children, filter_not_eq]
  have listed : (⟨1⟩ :: (before ++ ⟨2⟩ :: behind) : List NodeId).filter (· ≠ ⟨2⟩) = ⟨1⟩ :: (before ++ behind) := by
    rw [List.filter_cons_of_pos (by decide), List.filter_append, List.filter_cons_of_neg (by decide),
      other before fun id inside => parts.low id (List.mem_append_left _ inside),
      other behind fun id inside => parts.low id (List.mem_append_right _ inside)]
  dsimp only
  rw [listed, List.map_cons, BlockTree.toBytes_leaf live kind, BlockTree.map_toBytes row]

/-- The bytes of the packages tell the packages of the table. -/
theorem Stored.bytesTell (stored : table.Stored head rows) :
    List.Forall₂ Package.BytesTell (rows.filter (isOf .package)) table.content.packages := by
  obtain ⟨_, _, _, parts⟩ := stored.nodes.parts
  exact List.forall₂_map_right_iff.2 (parts.middle.flip.imp fun _ _ stands =>
    Package.StandsFor.bytesTell stands)

/-- A table tells the same when it is read from what it is written as. -/
theorem Stored.content_eq {again : Table} (stored : table.Stored head rows)
    (stored' : again.Stored head (rewriteRows rows)) : again.content = table.content := by
  have strings : again.strings = table.strings := by
    obtain ⟨bytes, found, pool⟩ := stored.strings
    obtain ⟨bytes', found', pool'⟩ := stored'.strings
    rw [find?_rewriteRows, found] at found'
    cases found'
    exact Except.ok.inj (pool'.symm.trans pool)
  have packages : again.content.packages = table.content.packages := by
    have tell := stored.bytesTell
    have tell' := stored'.bytesTell
    rw [filter_rewriteRows, List.forall₂_map_left_iff] at tell'
    exact List.right_unique_forall₂' (fun _ _ _ here there => here.unique there) tell'
      (tell.imp fun _ _ here => here.rewrite)
  have others : again.content.others = table.content.others := by
    rw [stored.others, stored'.others, filter_not_rewriteRows]
  exact Content.ext strings packages others

/-- The pieces that stand behind the header of a table. -/
def pieces (data : Bytes) : List Piece :=
  match readHead {} { data } with
  | .ok (header, _) cursor => (Piece.readAll header.stop (data.size + 1) cursor).1
  | .error _ _ => []

/-- The packages of a table stand next to each other. -/
def PackagesTogether (data : Bytes) : Prop :=
  ∃ before packages behind, Grouped (Piece.hasType .package) (pieces data) before packages behind

/-- The packages of a table have clean names. -/
def CleanNames (data : Bytes) : Prop :=
  ∀ piece ∈ pieces data, piece.hasType .package = true → Package.CleanName piece.bytes.toArray

theorem Framed.pieces_eq (framed : Framed head rows) :
    pieces (head ++ rows.flatten).toArray = Piece.row head.length rows := by
  have enough : rows.length ≤ (head ++ rows.flatten).toArray.size + 1 := by
    have less := framed.isRow.length_le
    rw [List.size_toArray, List.length_append]
    omega
  have stands : Bytes.Stands (head ++ rows.flatten).toArray head.length rows.flatten := by
    rw [Bytes.Stands, List.toList_toArray, List.drop_left]
  unfold pieces
  rw [framed.readHead_eq]
  dsimp only
  rw [framed.stop_eq, Piece.readAll_ok framed.isRow stands enough]

/-- Pieces with clean names whose packages stand together are written as they were read. -/
theorem Fits.rewriteRows_eq (fits : Fits head rows) (together : PackagesTogether (head ++ rows.flatten).toArray)
    (clean : CleanNames (head ++ rows.flatten).toArray) : rewriteRows rows = rows := by
  unfold PackagesTogether at together
  unfold CleanNames at clean
  rw [fits.pieces_eq] at together clean
  have type {piece : Piece} (inside : piece ∈ Piece.row head.length rows) :
      isOf .package piece.bytes = piece.hasType .package := (hasType_of_mem_row inside).symm
  have regrouped : regroup (isOf .package) rows = rows := by
    obtain ⟨before, packages, behind, grouped⟩ := together
    have tests (row : List Piece) (listed : ∀ piece ∈ row, piece ∈ Piece.row head.length rows) (passes : Bool)
        (all : ∀ piece ∈ row, piece.hasType .package = passes) :
        ∀ bytes ∈ row.map Piece.bytes, isOf .package bytes = passes := fun bytes inside => by
      obtain ⟨piece, here, rfl⟩ := List.mem_map.1 inside
      exact (type (listed piece here)).trans (all piece here)
    have grouped : Grouped (isOf .package) rows (before.map Piece.bytes) (packages.map Piece.bytes)
        (behind.map Piece.bytes) := {
      whole := by
        have whole := congrArg (List.map Piece.bytes) grouped.whole
        rwa [Piece.map_bytes_row, List.map_append, List.map_append] at whole
      before := tests before (fun piece inside => by simp [grouped.whole, inside]) false grouped.before
      group := tests packages (fun piece inside => by simp [grouped.whole, inside]) true grouped.group
      behind := tests behind (fun piece inside => by simp [grouped.whole, inside]) false grouped.behind }
    exact grouped.regroup_eq
  have kept : ∀ bytes ∈ rows, rewritePiece bytes = bytes := fun bytes inside => by
    cases package : isOf .package bytes with
    | false => exact rewritePiece_of_other package
    | true =>
        have isPackage := fits.packages bytes inside package
        have long := Package.nameStop_le isPackage.long
        rw [← Piece.map_bytes_row head.length rows] at inside
        obtain ⟨piece, listed, rfl⟩ := List.mem_map.1 inside
        have named := clean piece listed ((type listed).symm.trans package)
        rw [rewritePiece_of_package package, Package.rewriteFront, Package.rewriteName_of_clean long named]
  rw [rewriteRows, regrouped, List.map_congr_left kept, List.map_id']

/-- Bytes that are read as a table are written with the packages together and their names anew, which tells the
same. What is written is read again, and is written a second time as it is. Bytes whose packages stand together
with clean names are written as they are. -/
theorem toBytes_of_read {data : Bytes} {table : Table} (run : read data {} = .ok table) :
    ∃ bytes written again final, Table.toBytes table = .ok bytes written ∧
      (PackagesTogether data → CleanNames data → bytes = data.toList) ∧
      read bytes.toArray {} = .ok again ∧ again.content = table.content ∧
      Table.toBytes again = .ok bytes final := by
  obtain ⟨source, rfl⟩ : ∃ source : List UInt8, data = source.toArray := ⟨data.toList, Array.toArray_toList.symm⟩
  obtain ⟨head, rows, rfl, fits, stored⟩ := stored_of_read run
  obtain ⟨written, writes⟩ := stored.toBytes fits
  obtain ⟨again, reads, stored'⟩ := fits.rewrite.read
  obtain ⟨final, writes'⟩ := stored'.toBytes fits.rewrite
  rw [rewriteRows_rewriteRows fits.packages] at writes'
  exact ⟨_, written, again, final, writes, fun together clean => by rw [fits.rewriteRows_eq together clean], reads,
    stored.content_eq stored', writes'⟩

/-- The header of a table with one package. -/
def onePackageHead : List UInt8 := [2, 0, 12, 0, 68, 1, 0, 0, 1, 0, 0, 0]

/-- The code units of a name of one letter. -/
def onePackageName : List UInt16 := 97 :: List.replicate 127 0

/-- An empty string pool and a package. -/
def onePackageRows : List (List UInt8) :=
  [[1, 0, 28, 0, 28, 0, 0, 0, 0, 0, 0, 0, 0, 0, 0, 0, 0, 1, 0, 0, 28, 0, 0, 0, 0, 0, 0, 0],
    [0, 2, 28, 1, 28, 1, 0, 0, 127, 0, 0, 0] ++ onePackageName.flatMap Bytes.ofWord16 ++ List.replicate 16 0]

theorem fits_onePackage : Fits onePackageHead onePackageRows where
  isChunk := ⟨by decide +kernel, by decide +kernel, by decide +kernel⟩
  type := by decide
  size := by decide
  long := by decide
  isRow := .chunk ⟨by decide, by decide, by decide⟩
    (.chunk ⟨by decide +kernel, by decide +kernel, by decide +kernel⟩ .nil)
  count := by decide +kernel
  packages bytes inside package := by
    rcases List.mem_cons.1 inside with rfl | inside
    · exact absurd package (by decide)
    · cases List.mem_singleton.1 inside
      refine ⟨_, [], (List.append_nil _).symm, ⟨?_, by decide +kernel, by decide +kernel, .nil⟩,
        fun _ => List.not_mem_nil.elim⟩
      exact ⟨by decide +kernel, by decide +kernel, by decide +kernel⟩
  strings := by
    have readable : (StringPool.read (onePackageRows.head (by decide)).toArray).isOk = true := by decide +kernel
    cases run : StringPool.read (onePackageRows.head (by decide)).toArray with
    | error fault =>
        rw [run] at readable
        cases readable
    | ok pool => exact ⟨_, pool, rfl, run⟩

theorem toBytes_of_read_onePackage : ∃ table written,
    read (onePackageHead ++ onePackageRows.flatten).toArray {} = .ok table ∧
      Table.toBytes table = .ok (onePackageHead ++ onePackageRows.flatten) written := by
  have pieces := fits_onePackage.pieces_eq
  have together : PackagesTogether (onePackageHead ++ onePackageRows.flatten).toArray := by
    unfold PackagesTogether
    rw [pieces]
    refine ⟨(Piece.row onePackageHead.length onePackageRows).take 1,
      (Piece.row onePackageHead.length onePackageRows).drop 1, [], ?_, ?_, ?_, ?_⟩
    · rw [List.take_append_drop, List.append_nil]
    · decide +kernel
    · decide +kernel
    · decide +kernel
  have clean : CleanNames (onePackageHead ++ onePackageRows.flatten).toArray := by
    intro piece inside package
    have test : piece.hasType .package = isOf .package piece.bytes := hasType_of_mem_row (pieces ▸ inside)
    have listed := List.mem_map_of_mem (f := Piece.bytes) (pieces ▸ inside)
    rw [Piece.map_bytes_row] at listed
    rw [package] at test
    rcases List.mem_cons.1 listed with same | listed
    · rw [same] at test
      exact absurd test (by decide)
    · rw [List.mem_singleton.1 listed]
      have field : Package.nameField ([0, 2, 28, 1, 28, 1, 0, 0, 127, 0, 0, 0] ++
          onePackageName.flatMap Bytes.ofWord16 ++ List.replicate 16 0).toArray = onePackageName := by
        refine Package.nameField_of_stands ?_ rfl
        rw [Bytes.Stands, List.toList_toArray, List.append_assoc]
        exact List.prefix_append ..
      have rest : onePackageName.dropWhile (· ≠ 0) = List.replicate 127 0 := by decide +kernel
      refine ⟨?_, fun unit inside => ?_⟩
      · rw [field]
        decide +kernel
      · rw [field, rest] at inside
        exact List.eq_of_mem_replicate inside
  obtain ⟨table, run, _⟩ := fits_onePackage.read
  obtain ⟨bytes, written, again, final, writes, same, _⟩ := toBytes_of_read run
  rw [same together clean] at writes
  exact ⟨table, written, run, writes⟩

end Table
end DexArsc.Resource
