import MyMovies.Firebase.CompoundWrite

/-!
# The write tree

`FWriteTree` holds the writes that the server has not answered yet: their
records in the order in which they were made, and the visible ones merged into
one compound write.  When a write is answered its record goes; the compound
write is left alone if a later write hides the removed one, rebuilt from the
remaining records if others overlap it, and pruned at the path otherwise.  Merge
records, which no caller in the application makes, are left out.
-/

namespace MyMovies
namespace Firebase

open Foundation Overlay

structure FWriteRecord extends Write where
  writeId : Int
  visible : Bool

structure FCacheNode where
  node : FNode
  isFullyInitialized : Bool

def childrenOf : FNode -> List (Sigma fun _ : String => FNode)
  | .leaf _ => []
  | .node cs => cs

/-- `hasChild:`; it is false on a leaf. -/
def hasChild (node : FNode) (childKey : String) : Bool := !(node.child childKey).isEmpty

/-- The caches of a default query are never filtered. -/
def FCacheNode.isCompleteForChild (cache : FCacheNode) (childKey : String) : Bool :=
  cache.isFullyInitialized || hasChild cache.node childKey

def FCacheNode.isCompleteForPath (cache : FCacheNode) : List String -> Bool
  | [] => cache.isFullyInitialized
  | childKey :: _ => cache.isCompleteForChild childKey

structure FWriteTree where
  visibleWrites : FCompoundWrite
  allWrites : List FWriteRecord
  lastWriteId : Int

namespace FWriteTree

def init : FWriteTree where
  visibleWrites := FCompoundWrite.emptyWrite
  allWrites := []
  lastWriteId := -1

/-- `none` is the failed assertion that an older write is stacked on a newer one. -/
def addOverwriteAtPath (tree : FWriteTree) (record : FWriteRecord) : Option FWriteTree :=
  if record.writeId > tree.lastWriteId then
    some
      { visibleWrites :=
          if record.visible then tree.visibleWrites.addWrite record.node record.path
          else tree.visibleWrites
        allWrites := tree.allWrites ++ [record]
        lastWriteId := record.writeId }
  else
    none

def writeForId (tree : FWriteTree) (writeId : Int) : Option FWriteRecord :=
  tree.allWrites.find? fun record => record.writeId == writeId

def defaultFilter : FWriteRecord -> Bool := fun _ => true

/-- What `layerTreeFromWrites` does with one record: a write at or above the root
of the layer shows there with what it holds below, one apart from it is ignored. -/
def layerWrite (filter : FWriteRecord -> Bool) (treeRoot : List String)
    (compoundWrite : FCompoundWrite) (record : FWriteRecord) : FCompoundWrite :=
  if filter record then
    if FPath.contains treeRoot record.path then
      compoundWrite.addWrite record.node (FPath.relativePathFrom treeRoot record.path)
    else if FPath.contains record.path treeRoot then
      compoundWrite.addWrite
        (record.node.descend (FPath.relativePathFrom record.path treeRoot)) []
    else
      compoundWrite
  else
    compoundWrite

def layerTreeFromWrites (writes : List FWriteRecord) (filter : FWriteRecord -> Bool)
    (treeRoot : List String) : FCompoundWrite :=
  writes.foldl (layerWrite filter treeRoot) FCompoundWrite.emptyWrite

def resetTree (tree : FWriteTree) : FWriteTree :=
  { tree with
    visibleWrites := layerTreeFromWrites tree.allWrites defaultFilter []
    lastWriteId :=
      match tree.allWrites.getLast? with
      | some lastRecord => lastRecord.writeId
      | none => -1 }

/--
The loop of `removeWriteId` over the other records, the last one first: `none`
when a later write shadows the removed one, otherwise whether some write
overlaps it.  The records still to be visited are those before the current one,
so their number is its index.
-/
def overlaps (removedPath : List String) (index : Nat) : List FWriteRecord -> Bool -> Option Bool
  | [], found => some found
  | currentWrite :: earlier, found =>
      if currentWrite.visible then
        if earlier.length ≥ index ∧ FPath.contains currentWrite.path removedPath then
          none
        else if FPath.contains removedPath currentWrite.path then
          overlaps removedPath index earlier true
        else
          overlaps removedPath index earlier found
      else
        overlaps removedPath index earlier found

/-- The rest of `removeWriteId`, once the record is taken out of the list. -/
def forget (tree : FWriteTree) (writeToRemove : FWriteRecord) (index : Nat)
    (allWrites : List FWriteRecord) : FWriteTree × Bool :=
  if writeToRemove.visible then
    match overlaps writeToRemove.path index allWrites.reverse false with
    | none => ({ tree with allWrites := allWrites }, false)
    | some true => (resetTree { tree with allWrites := allWrites }, true)
    | some false =>
        ({ tree with
            allWrites := allWrites
            visibleWrites := tree.visibleWrites.removeWriteAtPath writeToRemove.path },
          true)
  else
    ({ tree with allWrites := allWrites }, false)

/--
The tree without the write, and whether views have to be reevaluated; `none` is
the failed assertion that there is a write with this id.
-/
def removeWriteId (tree : FWriteTree) (writeId : Int) : Option (FWriteTree × Bool) :=
  match tree.allWrites.findIdx? fun record => record.writeId == writeId with
  | none => none
  | some index =>
      (tree.allWrites[index]?).map fun writeToRemove =>
        tree.forget writeToRemove index (tree.allWrites.eraseIdx index)

def removeAllWrites (tree : FWriteTree) : FWriteTree :=
  { tree with visibleWrites := FCompoundWrite.emptyWrite, allWrites := [] }

def shadowingWriteAtPath (tree : FWriteTree) (path : List String) : Option FNode :=
  tree.visibleWrites.completeNodeAtPath path

/-- The records that matter at a location, the excluded and the hidden ones left out. -/
def cacheFilter (treePath : List String) (writeIdsToExclude : Option (List Int))
    (includeHiddenWrites : Bool) (record : FWriteRecord) : Bool :=
  (record.visible || includeHiddenWrites) &&
    !(writeIdsToExclude.getD []).contains record.writeId &&
    (FPath.contains record.path treePath || FPath.contains treePath record.path)

def calculateCompleteEventCacheAtPath (tree : FWriteTree) (treePath : List String)
    (completeServerCache : Option FNode) (writeIdsToExclude : Option (List Int))
    (includeHiddenWrites : Bool) : Option FNode :=
  if writeIdsToExclude.isNone && !includeHiddenWrites then
    match tree.visibleWrites.completeNodeAtPath treePath with
    | some shadowingNode => some shadowingNode
    | none =>
        let subMerge := tree.visibleWrites.childCompoundWriteAtPath treePath
        if subMerge.isEmpty then
          completeServerCache
        else if completeServerCache.isNone && !subMerge.hasCompleteWriteAtPath [] then
          none
        else
          some (subMerge.applyToNode (completeServerCache.getD KeyedTree.empty))
  else
    let merge := tree.visibleWrites.childCompoundWriteAtPath treePath
    if !includeHiddenWrites && merge.isEmpty then
      completeServerCache
    else if !includeHiddenWrites && completeServerCache.isNone &&
        !merge.hasCompleteWriteAtPath [] then
      none
    else
      let mergeAtPath := layerTreeFromWrites tree.allWrites
        (cacheFilter treePath writeIdsToExclude includeHiddenWrites) treePath
      some (mergeAtPath.applyToNode (completeServerCache.getD KeyedTree.empty))

/-- The children for which the data is complete: those of the server, with the
writes below them, and those that are written as a whole. -/
def calculateCompleteEventChildrenAtPath (tree : FWriteTree) (treePath : List String)
    (completeServerChildren : FNode) : FNode :=
  match tree.visibleWrites.completeNodeAtPath treePath with
  | some topLevelSet => if topLevelSet.isLeaf then KeyedTree.empty else topLevelSet
  | none =>
      let merge := tree.visibleWrites.childCompoundWriteAtPath treePath
      let layered := (childrenOf completeServerChildren).foldl (fun completeChildren c =>
        completeChildren.setChild c.1 ((merge.childCompoundWriteAtPath [c.1]).applyToNode c.2))
        KeyedTree.empty
      merge.completeChildren.foldl
        (fun completeChildren c => completeChildren.setChild c.1 c.2) layered

/-- `none` when a write covers the changed path, so that nothing changes. -/
def calculateEventCacheAfterServerOverwriteAtPath (tree : FWriteTree)
    (treePath childPath : List String) (existingServerSnap : FNode) : Option FNode :=
  let path := treePath ++ childPath
  if tree.visibleWrites.hasCompleteWriteAtPath path then
    none
  else
    let childMerge := tree.visibleWrites.childCompoundWriteAtPath path
    if childMerge.isEmpty then
      some (existingServerSnap.descend childPath)
    else
      some (childMerge.applyToNode (existingServerSnap.descend childPath))

def calculateCompleteChildAtPath (tree : FWriteTree) (treePath : List String)
    (childKey : String) (existingServerCache : FCacheNode) : Option FNode :=
  let path := treePath ++ [childKey]
  match tree.visibleWrites.completeNodeAtPath path with
  | some shadowingNode => some shadowingNode
  | none =>
      if existingServerCache.isCompleteForChild childKey then
        let childMerge := tree.visibleWrites.childCompoundWriteAtPath path
        some (childMerge.applyToNode (existingServerCache.node.child childKey))
      else
        none

/-!
## What is pending
-/

def pathWrite (record : FWriteRecord) : PathWrite String LeafValue :=
  (record.path, record.node.values)

/-- The pending map that the records describe, made one after the other. -/
noncomputable def pendingWrites (writes : List FWriteRecord) : Pending String LeafValue :=
  pendingOf (writes.map pathWrite)

/--
All records are visible and in the order of their ids, and the compound write
holds what they describe.
-/
structure Inv (tree : FWriteTree) : Prop where
  visible : forall record, record ∈ tree.allWrites -> record.visible = true
  ordered : tree.allWrites.Pairwise fun r r' => r.writeId < r'.writeId
  last : forall record, record ∈ tree.allWrites -> record.writeId ≤ tree.lastWriteId
  wellFormed : tree.visibleWrites.WellFormed
  pending : tree.visibleWrites.pending = pendingWrites tree.allWrites

theorem Inv.eq_of_writeId {tree : FWriteTree} (hinv : tree.Inv) {w w' : FWriteRecord}
    (hw : w ∈ tree.allWrites) (hw' : w' ∈ tree.allWrites) (h : w.writeId = w'.writeId) :
    w = w' := by
  have hnodup : (tree.allWrites.map FWriteRecord.writeId).Nodup :=
    List.pairwise_map.mpr (hinv.ordered.imp fun hlt => hlt.ne)
  exact List.inj_on_of_nodup_map hnodup hw hw' h

theorem inv_init : init.Inv where
  visible := by simp [init]
  ordered := List.Pairwise.nil
  last := by simp [init]
  wellFormed := FCompoundWrite.wellFormed_emptyWrite
  pending := FCompoundWrite.pending_emptyWrite

theorem pendingWrites_append (front back : List FWriteRecord) :
    pendingWrites (front ++ back) = addAll (pendingWrites front) (back.map pathWrite) := by
  rw [pendingWrites, List.map_append, pendingOf, addAll_append]
  rfl

theorem pendingWrites_eq_none_iff {writes : List FWriteRecord} {q : List String} :
    pendingWrites writes q = none <-> forall record, record ∈ writes -> ¬ record.path <+: q := by
  rw [pendingWrites, pendingOf_eq_none_iff]
  simp only [List.mem_map, forall_exists_index, and_imp, forall_apply_eq_imp_iff₂]
  rfl

theorem pending_addWrite_record {w : FCompoundWrite} (hw : w.WellFormed)
    (record : FWriteRecord) :
    (w.addWrite record.node record.path).pending =
      add w.pending record.path record.node.values :=
  FCompoundWrite.pending_addWrite hw record.wellFormed record.valid

/-!
## Layering
-/

theorem layerWrite_spec {compoundWrite : FCompoundWrite} (hw : compoundWrite.WellFormed)
    {P : Pending String LeafValue} {treeRoot : List String}
    (hP : compoundWrite.pending = fun q => P (treeRoot ++ q))
    (filter : FWriteRecord -> Bool) (record : FWriteRecord) :
    (layerWrite filter treeRoot compoundWrite record).WellFormed ∧
      (layerWrite filter treeRoot compoundWrite record).pending = fun q =>
        (if filter record then add P record.path record.node.values else P)
          (treeRoot ++ q) := by
  unfold layerWrite
  cases hfilter : filter record with
  | false =>
      simp only [Bool.false_eq_true, if_false]
      exact ⟨hw, hP⟩
  | true =>
      simp only [if_true]
      by_cases hbelow : FPath.contains treeRoot record.path = true
      · rw [if_pos hbelow]
        rcases FPath.contains_iff.mp hbelow with ⟨rest, hrest⟩
        have hvalid : ValidPath rest := by
          intro k hk
          apply record.valid
          rw [← hrest]
          exact List.mem_append_right treeRoot hk
        rw [← hrest, FPath.relativePathFrom_append, add_append_append, ← hP]
        exact ⟨hw.addWrite record.wellFormed hvalid,
          FCompoundWrite.pending_addWrite hw record.wellFormed hvalid⟩
      · rw [if_neg hbelow]
        by_cases habove : FPath.contains record.path treeRoot = true
        · rw [if_pos habove]
          rcases FPath.contains_iff.mp habove with ⟨rest, rfl⟩
          have hchild : ValidNode (record.node.descend rest) := record.wellFormed.descend rest
          have hvalid : ValidPath [] := by simp [ValidPath]
          rw [FPath.relativePathFrom_append, add_at_or_above, ← hP]
          refine ⟨hw.addWrite hchild hvalid, ?_⟩
          rw [FCompoundWrite.pending_addWrite hw hchild hvalid]
          congr 1
          funext q
          exact KeyedTree.values_descend record.node rest q
        · rw [if_neg habove]
          have hapart : Apart record.path treeRoot :=
            ⟨fun h => habove (FPath.contains_iff.mpr h),
              fun h => hbelow (FPath.contains_iff.mpr h)⟩
          rw [add_apart_root P hapart]
          exact ⟨hw, hP⟩

theorem layerTreeFromWrites_spec (writes : List FWriteRecord) (filter : FWriteRecord -> Bool)
    (treeRoot : List String) :
    (layerTreeFromWrites writes filter treeRoot).WellFormed ∧
      (layerTreeFromWrites writes filter treeRoot).pending = fun q =>
        pendingWrites (writes.filter filter) (treeRoot ++ q) := by
  have hfold : forall (compoundWrite : FCompoundWrite) (P : Pending String LeafValue),
      compoundWrite.WellFormed -> (compoundWrite.pending = fun q => P (treeRoot ++ q)) ->
        (writes.foldl (layerWrite filter treeRoot) compoundWrite).WellFormed ∧
        (writes.foldl (layerWrite filter treeRoot) compoundWrite).pending = fun q =>
          addAll P ((writes.filter filter).map pathWrite) (treeRoot ++ q) := by
    induction writes with
    | nil => exact fun compoundWrite P hw hP => ⟨hw, hP⟩
    | cons record rest ih =>
        intro compoundWrite P hw hP
        have hstep := layerWrite_spec hw hP filter record
        have hrest := ih _ _ hstep.left hstep.right
        rw [List.foldl_cons]
        refine ⟨hrest.left, ?_⟩
        rw [hrest.right]
        cases hfilter : filter record with
        | false => rw [List.filter_cons_of_neg (by simp [hfilter])]; rfl
        | true => rw [List.filter_cons_of_pos hfilter]; rfl
  exact hfold FCompoundWrite.emptyWrite (fun _ => none) FCompoundWrite.wellFormed_emptyWrite
    FCompoundWrite.pending_emptyWrite

theorem filter_defaultFilter (writes : List FWriteRecord) :
    writes.filter defaultFilter = writes := by
  simp [defaultFilter]

/-!
## Adding and removing records
-/

theorem addOverwriteAtPath_inv {tree tree' : FWriteTree} {record : FWriteRecord}
    (h : tree.addOverwriteAtPath record = some tree') :
    tree.lastWriteId < record.writeId ∧
      tree' =
        { visibleWrites :=
            if record.visible then tree.visibleWrites.addWrite record.node record.path
            else tree.visibleWrites
          allWrites := tree.allWrites ++ [record]
          lastWriteId := record.writeId } := by
  unfold addOverwriteAtPath at h
  by_cases hid : record.writeId > tree.lastWriteId
  · rw [if_pos hid] at h
    exact ⟨hid, (Option.some.inj h).symm⟩
  · rw [if_neg hid] at h
    cases h

theorem Inv.addOverwriteAtPath {tree tree' : FWriteTree} (hinv : tree.Inv)
    {record : FWriteRecord} (hvisible : record.visible = true)
    (h : tree.addOverwriteAtPath record = some tree') : tree'.Inv := by
  rcases addOverwriteAtPath_inv h with ⟨hid, rfl⟩
  rw [hvisible, if_pos rfl]
  have hle : forall r, r ∈ tree.allWrites -> r.writeId < record.writeId :=
    fun r hr => lt_of_le_of_lt (hinv.last r hr) hid
  constructor
  case visible =>
    intro r hr
    rcases List.mem_append.mp hr with hr | hr
    · exact hinv.visible r hr
    · rw [List.mem_singleton.mp hr]
      exact hvisible
  case ordered =>
    apply List.pairwise_append.mpr
    refine ⟨hinv.ordered, List.pairwise_singleton _ _, ?_⟩
    intro r hr r' hr'
    rw [List.mem_singleton.mp hr']
    exact hle r hr
  case last =>
    intro r hr
    rcases List.mem_append.mp hr with hr | hr
    · exact (hle r hr).le
    · rw [List.mem_singleton.mp hr]
  case wellFormed => exact hinv.wellFormed.addWrite record.wellFormed record.valid
  case pending =>
    rw [pending_addWrite_record hinv.wellFormed, pendingWrites_append, hinv.pending]
    rfl

theorem addOverwriteAtPath_of_lt {tree : FWriteTree} (record : FWriteRecord)
    (h : tree.lastWriteId < record.writeId) :
    exists tree', tree.addOverwriteAtPath record = some tree' :=
  ⟨_, if_pos h⟩

theorem inv_removeAllWrites (tree : FWriteTree) : tree.removeAllWrites.Inv where
  visible := by simp [FWriteTree.removeAllWrites]
  ordered := List.Pairwise.nil
  last := by simp [FWriteTree.removeAllWrites]
  wellFormed := FCompoundWrite.wellFormed_emptyWrite
  pending := FCompoundWrite.pending_emptyWrite

/-- Over the records before the removed one the loop only looks for overlaps. -/
theorem overlaps_front {removedPath : List String} {index : Nat} {writes : List FWriteRecord}
    (hvisible : forall r, r ∈ writes -> r.visible = true) (hlength : writes.length ≤ index)
    (found : Bool) :
    overlaps removedPath index writes found =
      some (found || writes.any fun r => FPath.contains removedPath r.path) := by
  induction writes generalizing found with
  | nil => simp [overlaps]
  | cons r rest ih =>
      rw [List.length_cons] at hlength
      have hrest := fun found =>
        ih (fun r' hr' => hvisible r' (List.mem_cons_of_mem r hr')) (by omega) found
      have hnot : ¬ (rest.length ≥ index ∧ FPath.contains r.path removedPath = true) := by omega
      rw [overlaps, if_pos (hvisible r List.mem_cons_self), if_neg hnot, List.any_cons]
      cases hcontains : FPath.contains removedPath r.path with
      | true => rw [if_pos rfl, hrest]; simp
      | false => rw [if_neg (by simp), hrest, Bool.false_or]

/-- A later write that contains the path of the removed one ends the loop. -/
theorem overlaps_back {removedPath : List String} {index : Nat}
    {back front : List FWriteRecord} (hvisible : forall r, r ∈ back ++ front -> r.visible = true)
    (hlength : front.length = index) (found : Bool) :
    overlaps removedPath index (back ++ front) found =
      if back.any fun r => FPath.contains r.path removedPath then none
      else some (found || (back ++ front).any fun r => FPath.contains removedPath r.path) := by
  induction back generalizing found with
  | nil => exact overlaps_front hvisible hlength.le found
  | cons r rest ih =>
      have hrest := fun found =>
        ih (fun r' hr' => hvisible r' (List.mem_cons_of_mem r hr')) found
      have hge : (rest ++ front).length ≥ index := by
        rw [List.length_append]
        omega
      rw [List.cons_append, overlaps, if_pos (hvisible r List.mem_cons_self)]
      cases hshadow : FPath.contains r.path removedPath with
      | true =>
          rw [if_pos ⟨hge, rfl⟩, List.any_cons, hshadow]
          rfl
      | false =>
          rw [if_neg (by simp), List.any_cons, hshadow, Bool.false_or, List.any_cons]
          cases hcontains : FPath.contains removedPath r.path with
          | true => rw [if_pos rfl, hrest]; simp
          | false => rw [if_neg (by simp), hrest, Bool.false_or]

/-- The outcome of the loop, and what the tree becomes. -/
inductive Removal (tree : FWriteTree) (front : List FWriteRecord) (w : FWriteRecord)
    (back : List FWriteRecord) : FWriteTree -> Bool -> Prop where
  | shadowed (r : FWriteRecord) : r ∈ back -> r.path <+: w.path ->
      Removal tree front w back { tree with allWrites := front ++ back } false
  | rebuilt : (forall r, r ∈ back -> ¬ r.path <+: w.path) ->
      Removal tree front w back (resetTree { tree with allWrites := front ++ back }) true
  | pruned : (forall r, r ∈ back -> ¬ r.path <+: w.path) ->
      (forall r, r ∈ front ++ back -> ¬ w.path <+: r.path) ->
      Removal tree front w back
        { tree with
          allWrites := front ++ back
          visibleWrites := tree.visibleWrites.removeWriteAtPath w.path } true

theorem forget_cases (tree : FWriteTree) {front back : List FWriteRecord} {w : FWriteRecord}
    (hvisible : forall r, r ∈ front ++ w :: back -> r.visible = true) :
    Removal tree front w back (tree.forget w front.length (front ++ back)).1
      (tree.forget w front.length (front ++ back)).2 := by
  have hrest : forall r, r ∈ back.reverse ++ front.reverse -> r.visible = true := by
    intro r hr
    apply hvisible
    rcases List.mem_append.mp hr with hr | hr
    · exact List.mem_append_right front (List.mem_cons_of_mem w (List.mem_reverse.mp hr))
    · exact List.mem_append_left _ (List.mem_reverse.mp hr)
  unfold forget
  rw [hvisible w (by simp), if_pos rfl, List.reverse_append,
    overlaps_back hrest List.length_reverse]
  cases hshadow : back.reverse.any fun r => FPath.contains r.path w.path with
  | true =>
      rcases List.any_eq_true.mp hshadow with ⟨r, hr, hcontains⟩
      rw [if_pos rfl]
      exact .shadowed r (List.mem_reverse.mp hr) (FPath.contains_iff.mp hcontains)
  | false =>
      have hback : forall r, r ∈ back -> ¬ r.path <+: w.path := by
        intro r hr hpre
        have hany := List.any_eq_false.mp hshadow r (List.mem_reverse.mpr hr)
        exact hany (FPath.contains_iff.mpr hpre)
      rw [if_neg (by simp), Bool.false_or]
      cases hoverlap : (back.reverse ++ front.reverse).any fun r =>
          FPath.contains w.path r.path with
      | true => exact .rebuilt hback
      | false =>
          refine .pruned hback ?_
          intro r hr hpre
          have hmem : r ∈ back.reverse ++ front.reverse := by
            rcases List.mem_append.mp hr with hr | hr
            · exact List.mem_append_right _ (List.mem_reverse.mpr hr)
            · exact List.mem_append_left _ (List.mem_reverse.mpr hr)
          exact List.any_eq_false.mp hoverlap r hmem (FPath.contains_iff.mpr hpre)

theorem removeWriteId_cases {tree tree' : FWriteTree} (hinv : tree.Inv) {writeId : Int}
    {needed : Bool} (h : tree.removeWriteId writeId = some (tree', needed)) :
    exists front w back, tree.allWrites = front ++ w :: back ∧ w.writeId = writeId ∧
      Removal tree front w back tree' needed := by
  unfold removeWriteId at h
  cases hindex : tree.allWrites.findIdx? fun record => record.writeId == writeId with
  | none =>
      rw [hindex] at h
      cases h
  | some index =>
      rw [hindex] at h
      rcases Option.map_eq_some_iff.mp h with ⟨w, hw, hresult⟩
      rcases List.findIdx?_eq_some_iff_getElem.mp hindex with ⟨hlt, hid, _⟩
      rcases List.getElem?_eq_some_iff.mp hw with ⟨_, hget⟩
      have hsplit : tree.allWrites =
          tree.allWrites.take index ++ w :: tree.allWrites.drop (index + 1) := by
        rw [← hget, List.getElem_cons_drop hlt, List.take_append_drop]
      have hlength : (tree.allWrites.take index).length = index := by
        rw [List.length_take]
        omega
      refine ⟨tree.allWrites.take index, w, tree.allWrites.drop (index + 1), hsplit, ?_, ?_⟩
      · rw [← hget]
        simpa using hid
      · have hcases := forget_cases tree (hsplit ▸ hinv.visible)
        rw [hlength, ← List.eraseIdx_eq_take_drop_succ, hresult] at hcases
        exact hcases

theorem removeWriteId_of_mem {tree : FWriteTree} {w : FWriteRecord} (hw : w ∈ tree.allWrites) :
    exists removed, tree.removeWriteId w.writeId = some removed := by
  unfold removeWriteId
  cases hindex : tree.allWrites.findIdx? fun record => record.writeId == w.writeId with
  | none =>
      have hnone := List.findIdx?_eq_none_iff.mp hindex w hw
      rw [beq_self_eq_true] at hnone
      cases hnone
  | some index =>
      rcases List.findIdx?_eq_some_iff_getElem.mp hindex with ⟨hlt, _, _⟩
      exact ⟨_, Option.map_eq_some_iff.mpr ⟨_, List.getElem?_eq_getElem hlt, rfl⟩⟩

/-- Ids are in order, so that the record found is the one removed. -/
theorem writeForId_of_split {tree : FWriteTree} (hinv : tree.Inv) {front back : List FWriteRecord}
    {w : FWriteRecord} (hsplit : tree.allWrites = front ++ w :: back) :
    tree.writeForId w.writeId = some w := by
  have hordered := hinv.ordered
  rw [hsplit] at hordered
  have hlt := (List.pairwise_append.mp hordered).right.right
  rw [writeForId, hsplit, List.find?_append]
  have hnone : front.find? (fun record => record.writeId == w.writeId) = none := by
    rw [List.find?_eq_none]
    intro r hr heq
    exact (hlt r hr w List.mem_cons_self).ne (beq_iff_eq.mp heq)
  rw [hnone, Option.none_or, List.find?_cons_of_pos (by simp)]

/--
The order of answers under which the compound write stays exact: no earlier
pending write stands at or above the path of the answered one.  Answers in the
order of the writes satisfy it.
-/
def Answerable (tree : FWriteTree) (writeId : Int) : Prop :=
  forall w r, w ∈ tree.allWrites -> r ∈ tree.allWrites -> w.writeId = writeId ->
    r.writeId < writeId -> ¬ r.path <+: w.path

instance Answerable.decidable (tree : FWriteTree) (writeId : Int) :
    Decidable (tree.Answerable writeId) :=
  decidable_of_iff
    (forall w, w ∈ tree.allWrites -> forall r, r ∈ tree.allWrites -> w.writeId = writeId ->
      r.writeId < writeId -> ¬ r.path <+: w.path)
    ⟨fun h w r hw hr => h w hw r hr, fun h w hw r hr => h w r hw hr⟩

theorem Answerable.front {tree : FWriteTree} (hinv : tree.Inv) {front back : List FWriteRecord}
    {w : FWriteRecord} (h : tree.Answerable w.writeId)
    (hsplit : tree.allWrites = front ++ w :: back) :
    forall r, r ∈ front -> ¬ r.path <+: w.path := by
  intro r hr
  have hordered := hinv.ordered
  rw [hsplit] at hordered
  have hlt := (List.pairwise_append.mp hordered).right.right r hr w List.mem_cons_self
  apply h w r _ _ rfl hlt
  · rw [hsplit]
    exact List.mem_append_right front List.mem_cons_self
  · rw [hsplit]
    exact List.mem_append_left _ hr

theorem le_last_of_pairwise {writes : List FWriteRecord} {lastRecord : FWriteRecord}
    (h : writes.Pairwise fun r r' => r.writeId < r'.writeId)
    (hlast : writes.getLast? = some lastRecord) :
    forall r, r ∈ writes -> r.writeId ≤ lastRecord.writeId := by
  rcases List.getLast?_eq_some_iff.mp hlast with ⟨front, rfl⟩
  intro r hr
  rcases List.mem_append.mp hr with hr | hr
  · exact ((List.pairwise_append.mp h).right.right r hr lastRecord List.mem_cons_self).le
  · rw [List.mem_singleton.mp hr]

theorem inv_resetTree {tree : FWriteTree}
    (hvisible : forall r, r ∈ tree.allWrites -> r.visible = true)
    (hordered : tree.allWrites.Pairwise fun r r' => r.writeId < r'.writeId) :
    tree.resetTree.Inv := by
  have hlayer := layerTreeFromWrites_spec tree.allWrites defaultFilter []
  rw [filter_defaultFilter] at hlayer
  constructor
  case visible => exact hvisible
  case ordered => exact hordered
  case last =>
    intro r hr
    have hmem : r ∈ tree.allWrites := hr
    simp only [resetTree]
    cases hlast : tree.allWrites.getLast? with
    | some lastRecord => exact le_last_of_pairwise hordered hlast r hmem
    | none =>
        rw [List.getLast?_eq_none_iff.mp hlast] at hmem
        cases hmem
  case wellFormed => exact hlayer.left
  case pending => exact hlayer.right

section OneRecord

variable {front back : List FWriteRecord} {w : FWriteRecord}

theorem pendingWrites_map (writes : List FWriteRecord) :
    pendingWrites writes = pendingOf (writes.map pathWrite) := rfl

theorem pathWrite_apart (hfront : forall r, r ∈ front -> ¬ r.path <+: w.path) :
    forall w', w' ∈ front.map pathWrite -> ¬ w'.1 <+: (pathWrite w).1 := by
  intro w' hw'
  rcases List.mem_map.mp hw' with ⟨r, hr, rfl⟩
  exact hfront r hr

theorem pendingWrites_remove (hfront : forall r, r ∈ front -> ¬ r.path <+: w.path) :
    AgreeOff w.path (pendingWrites (front ++ w :: back)) (pendingWrites (front ++ back)) := by
  have hremove := pendingOf_remove (back.map pathWrite) (pathWrite_apart hfront)
  rw [pendingWrites_map, pendingWrites_map, List.map_append, List.map_append]
  exact hremove

theorem pendingWrites_shadowed (hfront : forall r, r ∈ front -> ¬ r.path <+: w.path)
    {r : FWriteRecord} (hr : r ∈ back) (hpre : r.path <+: w.path) :
    pendingWrites (front ++ w :: back) = pendingWrites (front ++ back) := by
  have hhidden := pendingOf_remove_hidden (pathWrite_apart hfront)
    ⟨pathWrite r, List.mem_map_of_mem hr, hpre⟩
  rw [pendingWrites_map, pendingWrites_map, List.map_append, List.map_append]
  exact hhidden

theorem pendingWrites_uncovered (hfront : forall r, r ∈ front -> ¬ r.path <+: w.path)
    (hback : forall r, r ∈ back -> ¬ r.path <+: w.path) {q : List String} (hq : q <+: w.path) :
    pendingWrites (front ++ back) q = none := by
  apply pendingWrites_eq_none_iff.mpr
  intro r hr hpre
  rcases List.mem_append.mp hr with hr | hr
  · exact hfront r hr (hpre.trans hq)
  · exact hback r hr (hpre.trans hq)

/-- Pruning is enough when the removed write stands apart from all others. -/
theorem pendingWrites_pruned (hfront : forall r, r ∈ front -> ¬ r.path <+: w.path)
    (hback : forall r, r ∈ back -> ¬ r.path <+: w.path)
    (hoverlap : forall r, r ∈ front ++ back -> ¬ w.path <+: r.path) (q : List String) :
    pendingWrites (front ++ back) q =
      if w.path <+: q then none else pendingWrites (front ++ w :: back) q := by
  by_cases hq : w.path <+: q
  · rw [if_pos hq, pendingWrites_eq_none_iff]
    intro r hr hpre
    rcases List.prefix_or_prefix_of_prefix hq hpre with h | h
    · exact hoverlap r hr h
    · rcases List.mem_append.mp hr with hr | hr
      · exact hfront r hr h
      · exact hback r hr h
  · rw [if_neg hq]
    exact (pendingWrites_remove hfront q hq).symm

end OneRecord

structure Removed (tree : FWriteTree) (front : List FWriteRecord) (w : FWriteRecord)
    (back : List FWriteRecord) (tree' : FWriteTree) (needed : Bool) : Prop where
  inv : tree'.Inv
  allWrites : tree'.allWrites = front ++ back
  lastWriteId : forall bound, -1 ≤ bound -> tree.lastWriteId ≤ bound ->
    tree'.lastWriteId ≤ bound
  agree : AgreeOff w.path tree.visibleWrites.pending tree'.visibleWrites.pending
  uncovered : needed = true -> tree'.visibleWrites.pending w.path = none
  unchanged : needed = false -> tree'.visibleWrites = tree.visibleWrites

theorem resetTree_lastWriteId {tree : FWriteTree} {bound : Int}
    (hlast : forall r, r ∈ tree.allWrites -> r.writeId ≤ bound) (hbound : -1 ≤ bound) :
    tree.resetTree.lastWriteId ≤ bound := by
  simp only [resetTree]
  cases hget : tree.allWrites.getLast? with
  | none => exact hbound
  | some lastRecord => exact hlast lastRecord (List.mem_of_getLast? hget)

/-- Records may go, as long as the compound write has what the others make pending. -/
theorem Inv.of_sublist {tree tree' : FWriteTree} (hinv : tree.Inv)
    (hsub : tree'.allWrites.Sublist tree.allWrites) (hlast : tree'.lastWriteId = tree.lastWriteId)
    (hwf : tree'.visibleWrites.WellFormed)
    (hpending : tree'.visibleWrites.pending = pendingWrites tree'.allWrites) : tree'.Inv where
  visible := fun r hr => hinv.visible r (hsub.subset hr)
  ordered := hinv.ordered.sublist hsub
  last := fun r hr => by
    rw [hlast]
    exact hinv.last r (hsub.subset hr)
  wellFormed := hwf
  pending := hpending

section Removal

variable {tree : FWriteTree} {front back : List FWriteRecord} {w : FWriteRecord}

theorem sublist_of_split (hsplit : tree.allWrites = front ++ w :: back) :
    (front ++ back).Sublist tree.allWrites := by
  rw [hsplit]
  exact List.Sublist.append_left (List.sublist_cons_self w back) front

theorem removed_shadowed (hinv : tree.Inv) (hsplit : tree.allWrites = front ++ w :: back)
    (hfront : forall r, r ∈ front -> ¬ r.path <+: w.path) {r : FWriteRecord} (hr : r ∈ back)
    (hpre : r.path <+: w.path) :
    Removed tree front w back { tree with allWrites := front ++ back } false := by
  have hpending : tree.visibleWrites.pending = pendingWrites (front ++ back) := by
    rw [hinv.pending, hsplit, pendingWrites_shadowed hfront hr hpre]
  constructor
  case inv => exact hinv.of_sublist (sublist_of_split hsplit) rfl hinv.wellFormed hpending
  case allWrites => rfl
  case lastWriteId => exact fun bound _ h => h
  case agree => exact fun q _ => rfl
  case uncovered => exact (nomatch ·)
  case unchanged => exact fun _ => rfl

theorem removed_rebuilt (hinv : tree.Inv) (hsplit : tree.allWrites = front ++ w :: back)
    (hfront : forall r, r ∈ front -> ¬ r.path <+: w.path)
    (hback : forall r, r ∈ back -> ¬ r.path <+: w.path) :
    Removed tree front w back (resetTree { tree with allWrites := front ++ back }) true := by
  have hsub := sublist_of_split hsplit
  have hreset : FWriteTree.Inv (resetTree { tree with allWrites := front ++ back }) :=
    inv_resetTree (fun r hr => hinv.visible r (hsub.subset hr)) (hinv.ordered.sublist hsub)
  have hpending := hreset.pending
  constructor
  case inv => exact hreset
  case allWrites => rfl
  case lastWriteId =>
    exact fun bound hbound h =>
      resetTree_lastWriteId (fun r hr => (hinv.last r (hsub.subset hr)).trans h) hbound
  case agree =>
    rw [hpending, hinv.pending, hsplit]
    exact pendingWrites_remove hfront
  case uncovered =>
    intro _
    rw [hpending]
    exact pendingWrites_uncovered hfront hback (List.prefix_refl _)
  case unchanged => exact (nomatch ·)

theorem pending_pruned (hinv : tree.Inv) (hsplit : tree.allWrites = front ++ w :: back)
    (hfront : forall r, r ∈ front -> ¬ r.path <+: w.path)
    (hback : forall r, r ∈ back -> ¬ r.path <+: w.path)
    (hoverlap : forall r, r ∈ front ++ back -> ¬ w.path <+: r.path) :
    (tree.visibleWrites.removeWriteAtPath w.path).pending = pendingWrites (front ++ back) := by
  have hpending : tree.visibleWrites.pending = pendingWrites (front ++ w :: back) := by
    rw [hinv.pending, hsplit]
  have hnone : forall q k r, w.path = q ++ k :: r -> tree.visibleWrites.pending q = none := by
    intro q k r hq
    have hprefix : q <+: w.path := by
      rw [hq]
      exact List.prefix_append _ _
    have hnot : ¬ w.path <+: q := by
      rw [hq]
      exact not_prefix_above q k r
    rw [hpending, pendingWrites_remove hfront q hnot]
    exact pendingWrites_uncovered hfront hback hprefix
  funext q
  rw [FCompoundWrite.pending_removeWriteAtPath hinv.wellFormed hnone,
    pendingWrites_pruned hfront hback hoverlap, hpending]

theorem removed_pruned (hinv : tree.Inv) (hsplit : tree.allWrites = front ++ w :: back)
    (hfront : forall r, r ∈ front -> ¬ r.path <+: w.path)
    (hback : forall r, r ∈ back -> ¬ r.path <+: w.path)
    (hoverlap : forall r, r ∈ front ++ back -> ¬ w.path <+: r.path) :
    Removed tree front w back
      { tree with
        allWrites := front ++ back
        visibleWrites := tree.visibleWrites.removeWriteAtPath w.path } true := by
  have hpruned := pending_pruned hinv hsplit hfront hback hoverlap
  constructor
  case inv =>
    exact hinv.of_sublist (sublist_of_split hsplit) rfl
      (hinv.wellFormed.removeWriteAtPath w.valid) hpruned
  case allWrites => rfl
  case lastWriteId => exact fun bound _ h => h
  case agree =>
    rw [hpruned, hinv.pending, hsplit]
    exact pendingWrites_remove hfront
  case uncovered =>
    intro _
    show (tree.visibleWrites.removeWriteAtPath w.path).pending w.path = none
    rw [hpruned]
    exact pendingWrites_uncovered hfront hback (List.prefix_refl _)
  case unchanged => exact (nomatch ·)

theorem Removal.removed {tree' : FWriteTree} {needed : Bool} (hinv : tree.Inv)
    (hsplit : tree.allWrites = front ++ w :: back)
    (hfront : forall r, r ∈ front -> ¬ r.path <+: w.path)
    (h : Removal tree front w back tree' needed) : Removed tree front w back tree' needed := by
  cases h with
  | shadowed r hr hpre => exact removed_shadowed hinv hsplit hfront hr hpre
  | rebuilt hback => exact removed_rebuilt hinv hsplit hfront hback
  | pruned hback hoverlap => exact removed_pruned hinv hsplit hfront hback hoverlap

end Removal

theorem Inv.removeWriteId {tree tree' : FWriteTree} (hinv : tree.Inv) {writeId : Int}
    {needed : Bool} (h : tree.removeWriteId writeId = some (tree', needed))
    (hanswerable : tree.Answerable writeId) :
    exists front w back, tree.allWrites = front ++ w :: back ∧ w.writeId = writeId ∧
      Removed tree front w back tree' needed := by
  rcases removeWriteId_cases hinv h with ⟨front, w, back, hsplit, rfl, hremoval⟩
  exact ⟨front, w, back, hsplit, rfl,
    hremoval.removed hinv hsplit (hanswerable.front hinv hsplit)⟩

/-!
## Event caches
-/

/-- A cache at a location shows the pending map of the location over the server data. -/
structure Shows (cache : FNode) (P : Pending String LeafValue) (server : Option FNode) :
    Prop where
  valid : ValidNode cache
  values : cache.values = applied P (server.getD KeyedTree.empty).values

theorem validNode_getD {server : Option FNode} (h : forall s, server = some s -> ValidNode s) :
    ValidNode (server.getD KeyedTree.empty) := by
  cases server with
  | none => exact KeyedTree.wellFormed_empty _
  | some s => exact h s rfl

theorem shows_shadowing {w : FCompoundWrite} (hw : w.WellFormed) {path : List String}
    {node : FNode} (h : w.completeNodeAtPath path = some node) (server : Option FNode) :
    Shows node (fun q => w.pending (path ++ q)) server where
  valid := FImmutableTree.WellFormed.completeNode hw h
  values := by
    funext q
    symm
    apply applied_some
    exact FCompoundWrite.values_completeNode h q

theorem shows_applyToNode {w : FCompoundWrite} (hw : w.WellFormed) {server : Option FNode}
    (hserver : forall s, server = some s -> ValidNode s) :
    Shows (w.applyToNode (server.getD KeyedTree.empty)) w.pending server where
  valid := hw.applyToNode (validNode_getD hserver)
  values := FCompoundWrite.values_applyToNode hw (validNode_getD hserver)

theorem shows_unwritten {w : FCompoundWrite} (h : w.isEmpty = true) {s : FNode}
    (hs : ValidNode s) : Shows s w.pending (some s) where
  valid := hs
  values := by
    rw [FCompoundWrite.pending_of_isEmpty h, applied_none]
    rfl

theorem hasCompleteWrite_nil {w : FCompoundWrite} :
    w.hasCompleteWriteAtPath [] = false <-> w.pending [] = none := by
  rw [FCompoundWrite.hasCompleteWriteAtPath, Option.isSome_eq_false_iff, Option.isNone_iff_eq_none,
    FCompoundWrite.completeNode_isSome_iff]

/-- A computed cache; without server data it is known only if a write covers the location. -/
def ShowsKnown (P : Pending String LeafValue) (server : Option FNode) : Option FNode -> Prop
  | some cache => Shows cache P server
  | none => server = none ∧ P [] = none

theorem showsKnown_unwritten {w : FCompoundWrite} (h : w.isEmpty = true) {server : Option FNode}
    (hserver : forall s, server = some s -> ValidNode s) :
    ShowsKnown w.pending server server := by
  cases server with
  | none => exact ⟨rfl, congrFun (FCompoundWrite.pending_of_isEmpty h) []⟩
  | some s => exact shows_unwritten h (hserver s rfl)

theorem calculateCompleteEventCache_spec {tree : FWriteTree} (hinv : tree.Inv)
    (treePath : List String) {server : Option FNode}
    (hserver : forall s, server = some s -> ValidNode s) :
    ShowsKnown (fun q => pendingWrites tree.allWrites (treePath ++ q)) server
      (tree.calculateCompleteEventCacheAtPath treePath server none false) := by
  have hchild := FCompoundWrite.pending_childCompoundWriteAtPath hinv.wellFormed treePath
  have hwf := hinv.wellFormed.childCompoundWriteAtPath treePath
  rw [← hinv.pending, calculateCompleteEventCacheAtPath, if_pos (by simp)]
  cases hnode : tree.visibleWrites.completeNodeAtPath treePath with
  | some node => exact shows_shadowing hinv.wellFormed hnode server
  | none =>
      have hroot : (tree.visibleWrites.childCompoundWriteAtPath treePath).pending [] = none := by
        simp only [hchild, List.append_nil]
        exact FCompoundWrite.completeNode_isSome_iff.mp hnode
      simp only [hasCompleteWrite_nil.mpr hroot, ← hchild]
      cases hempty : (tree.visibleWrites.childCompoundWriteAtPath treePath).isEmpty with
      | true => exact showsKnown_unwritten hempty hserver
      | false =>
          cases server with
          | none => exact ⟨rfl, hroot⟩
          | some s => exact shows_applyToNode hwf hserver

theorem addAll_filter_relevant {writes : List FWriteRecord} {f g : FWriteRecord -> Bool}
    {treePath : List String}
    (h : forall r, r ∈ writes -> f r = g r ∨ Apart r.path treePath)
    {P P' : Pending String LeafValue} (hP : forall q, P (treePath ++ q) = P' (treePath ++ q))
    (q : List String) :
    addAll P ((writes.filter f).map pathWrite) (treePath ++ q) =
      addAll P' ((writes.filter g).map pathWrite) (treePath ++ q) := by
  induction writes generalizing P P' with
  | nil => exact hP q
  | cons r rest ih =>
      have hrest := fun {Q Q' : Pending String LeafValue}
          (hQ : forall q, Q (treePath ++ q) = Q' (treePath ++ q)) =>
        ih (fun r' hr' => h r' (List.mem_cons_of_mem r hr')) hQ
      have hskip : Apart r.path treePath -> forall (Q : Pending String LeafValue) (q : List String),
          add Q r.path r.node.values (treePath ++ q) = Q (treePath ++ q) :=
        fun hapart Q q => add_apart Q (hapart.append q) _
      rcases h r List.mem_cons_self with heq | hapart
      · cases hg : g r with
        | true =>
            rw [List.filter_cons_of_pos (heq.trans hg), List.filter_cons_of_pos hg]
            exact hrest (add_congr_root hP r.path r.node.values)
        | false =>
            rw [List.filter_cons_of_neg (by simp [heq, hg]),
              List.filter_cons_of_neg (by simp [hg])]
            exact hrest hP
      · cases hf : f r <;> cases hg : g r
        · rw [List.filter_cons_of_neg (by simp [hf]), List.filter_cons_of_neg (by simp [hg])]
          exact hrest hP
        · rw [List.filter_cons_of_neg (by simp [hf]), List.filter_cons_of_pos hg]
          exact hrest (fun q => (hP q).trans (hskip hapart P' q).symm)
        · rw [List.filter_cons_of_pos hf, List.filter_cons_of_neg (by simp [hg])]
          exact hrest (fun q => (hskip hapart P q).trans (hP q))
        · rw [List.filter_cons_of_pos hf, List.filter_cons_of_pos hg]
          exact hrest (fun q => ((hskip hapart P q).trans (hP q)).trans (hskip hapart P' q).symm)

def kept (writeIdsToExclude : List Int) (record : FWriteRecord) : Bool :=
  !writeIdsToExclude.contains record.writeId

theorem pendingWrites_cacheFilter {tree : FWriteTree} (hinv : tree.Inv)
    (treePath : List String) (writeIdsToExclude : List Int) (includeHiddenWrites : Bool)
    (q : List String) :
    pendingWrites
        (tree.allWrites.filter (cacheFilter treePath (some writeIdsToExclude) includeHiddenWrites))
        (treePath ++ q) =
      pendingWrites (tree.allWrites.filter (kept writeIdsToExclude)) (treePath ++ q) := by
  apply addAll_filter_relevant _ (fun _ => rfl)
  intro r hr
  by_cases hbelow : FPath.contains r.path treePath = true
  · left
    simp [cacheFilter, kept, hinv.visible r hr, hbelow]
  · by_cases habove : FPath.contains treePath r.path = true
    · left
      simp [cacheFilter, kept, hinv.visible r hr, habove]
    · exact Or.inr ⟨fun h => hbelow (FPath.contains_iff.mpr h),
        fun h => habove (FPath.contains_iff.mpr h)⟩

theorem pendingWrites_filter_none {writes : List FWriteRecord} {q : List String}
    (h : pendingWrites writes q = none) (f : FWriteRecord -> Bool) :
    pendingWrites (writes.filter f) q = none := by
  rw [pendingWrites_eq_none_iff] at h ⊢
  exact fun r hr => h r (List.mem_filter.mp hr).left

/-- The cache computed by layering the records anew, some of them left out. -/
theorem layeredEventCache_spec {tree : FWriteTree} (hinv : tree.Inv) (treePath : List String)
    (writeIdsToExclude : List Int) {server : Option FNode}
    (hserver : forall s, server = some s -> ValidNode s) :
    ShowsKnown
      (fun q => pendingWrites (tree.allWrites.filter (kept writeIdsToExclude)) (treePath ++ q))
      server
      (tree.calculateCompleteEventCacheAtPath treePath server (some writeIdsToExclude) false) := by
  have hchild := FCompoundWrite.pending_childCompoundWriteAtPath hinv.wellFormed treePath
  rw [hinv.pending] at hchild
  have hlayer := layerTreeFromWrites_spec tree.allWrites
    (cacheFilter treePath (some writeIdsToExclude) false) treePath
  simp only [pendingWrites_cacheFilter hinv] at hlayer
  rw [calculateCompleteEventCacheAtPath, if_neg (by simp)]
  simp only [Bool.not_false, Bool.true_and]
  cases hempty : (tree.visibleWrites.childCompoundWriteAtPath treePath).isEmpty with
  | true =>
      have hnone : forall q, pendingWrites tree.allWrites (treePath ++ q) = none := by
        intro q
        have hq := congrFun (FCompoundWrite.pending_of_isEmpty hempty) q
        rwa [hchild] at hq
      rw [if_pos rfl]
      simp only [pendingWrites_filter_none (hnone _)]
      have hunwritten := showsKnown_unwritten hempty hserver
      rwa [FCompoundWrite.pending_of_isEmpty hempty] at hunwritten
  | false =>
      rw [if_neg (by simp)]
      cases server with
      | some s =>
          rw [if_neg (by simp), ← hlayer.right]
          exact shows_applyToNode hlayer.left hserver
      | none =>
          cases hroot : FCompoundWrite.hasCompleteWriteAtPath
              (tree.visibleWrites.childCompoundWriteAtPath treePath) [] with
          | true =>
              rw [if_neg (by simp), ← hlayer.right]
              exact shows_applyToNode hlayer.left hserver
          | false =>
              rw [if_pos (by simp)]
              have hnone := hasCompleteWrite_nil.mp hroot
              simp only [hchild] at hnone
              exact ⟨rfl, pendingWrites_filter_none hnone _⟩

/-- All writes are visible, so that none is added by including the hidden ones. -/
theorem hiddenEventCache_spec {tree : FWriteTree} (hinv : tree.Inv) (treePath : List String)
    (writeIdsToExclude : List Int) {server : Option FNode}
    (hserver : forall s, server = some s -> ValidNode s) :
    exists cache, tree.calculateCompleteEventCacheAtPath treePath server (some writeIdsToExclude)
        true = some cache ∧
      Shows cache
        (fun q => pendingWrites (tree.allWrites.filter (kept writeIdsToExclude)) (treePath ++ q))
        server := by
  have hlayer := layerTreeFromWrites_spec tree.allWrites
    (cacheFilter treePath (some writeIdsToExclude) true) treePath
  simp only [pendingWrites_cacheFilter hinv] at hlayer
  refine ⟨(layerTreeFromWrites tree.allWrites (cacheFilter treePath (some writeIdsToExclude) true)
    treePath).applyToNode (server.getD KeyedTree.empty), ?_, ?_⟩
  · simp [calculateCompleteEventCacheAtPath]
  · rw [← hlayer.right]
    exact shows_applyToNode hlayer.left hserver

theorem filter_kept_nil (writes : List FWriteRecord) : writes.filter (kept []) = writes := by
  simp [kept]

theorem ShowsKnown.same {P : Pending String LeafValue} {server cache cache' : Option FNode}
    (h : ShowsKnown P server cache) (h' : ShowsKnown P server cache')
    (hknown : cache.isSome = cache'.isSome) : Option.Rel KeyedTree.Same cache cache' := by
  cases cache with
  | none =>
      cases cache' with
      | none => exact .none
      | some node' => cases hknown
  | some node =>
      cases cache' with
      | none => cases hknown
      | some node' => exact .some (h.values.trans h'.values.symm)

/-- Both computations know the cache in the same cases. -/
theorem eventCache_isSome {tree : FWriteTree} (hinv : tree.Inv) (treePath : List String)
    (server : Option FNode) (writeIdsToExclude : Option (List Int)) :
    (tree.calculateCompleteEventCacheAtPath treePath server writeIdsToExclude false).isSome =
      (server.isSome || tree.visibleWrites.hasCompleteWriteAtPath treePath) := by
  have hchild := FCompoundWrite.pending_childCompoundWriteAtPath hinv.wellFormed treePath
  have hroot : (tree.visibleWrites.childCompoundWriteAtPath treePath).hasCompleteWriteAtPath [] =
      tree.visibleWrites.hasCompleteWriteAtPath treePath := by
    rw [Bool.eq_iff_iff, ← not_iff_not, Bool.not_eq_true, Bool.not_eq_true, hasCompleteWrite_nil]
    rw [FCompoundWrite.hasCompleteWriteAtPath, Option.isSome_eq_false_iff,
      Option.isNone_iff_eq_none, FCompoundWrite.completeNode_isSome_iff]
    simp only [hchild, List.append_nil]
  have hunwritten : (tree.visibleWrites.childCompoundWriteAtPath treePath).isEmpty = true ->
      tree.visibleWrites.hasCompleteWriteAtPath treePath = false := by
    intro hempty
    rw [← hroot, hasCompleteWrite_nil, FCompoundWrite.pending_of_isEmpty hempty]
  unfold calculateCompleteEventCacheAtPath
  simp only [hroot]
  by_cases hplain : (writeIdsToExclude.isNone && !false) = true
  · rw [if_pos hplain]
    cases hnode : tree.visibleWrites.completeNodeAtPath treePath with
    | some node => simp [FCompoundWrite.hasCompleteWriteAtPath, hnode]
    | none =>
        have hcomplete : tree.visibleWrites.hasCompleteWriteAtPath treePath = false := by
          rw [FCompoundWrite.hasCompleteWriteAtPath, hnode]
          rfl
        rw [hcomplete]
        cases (tree.visibleWrites.childCompoundWriteAtPath treePath).isEmpty <;>
          cases server <;> rfl
  · rw [if_neg hplain]
    cases hempty : (tree.visibleWrites.childCompoundWriteAtPath treePath).isEmpty with
    | true =>
        rw [hunwritten hempty]
        cases server <;> rfl
    | false =>
        cases tree.visibleWrites.hasCompleteWriteAtPath treePath <;> cases server <;> rfl

/-- The merged writes and the layered records give the same event cache. -/
theorem eventCache_same {tree : FWriteTree} (hinv : tree.Inv) (treePath : List String)
    {server : Option FNode} (hserver : forall s, server = some s -> ValidNode s) :
    Option.Rel KeyedTree.Same
      (tree.calculateCompleteEventCacheAtPath treePath server none false)
      (tree.calculateCompleteEventCacheAtPath treePath server (some []) false) := by
  have hlayered := layeredEventCache_spec hinv treePath [] hserver
  rw [filter_kept_nil] at hlayered
  apply (calculateCompleteEventCache_spec hinv treePath hserver).same hlayered
  rw [eventCache_isSome hinv, eventCache_isSome hinv]

/-- The server tree with the pending writes made on it one after the other. -/
def madeOn (server : FNode) (writes : List FWriteRecord) : FNode :=
  server.updates (writes.map fun r => r.toWrite.effect)

theorem values_madeOn {server : FNode} (hserver : ValidNode server)
    (writes : List FWriteRecord) :
    ValidNode (madeOn server writes) ∧
      (madeOn server writes).values = writeAll server.values (writes.map pathWrite) := by
  induction writes generalizing server with
  | nil => exact ⟨hserver, rfl⟩
  | cons r rest ih =>
      have hstep : ValidNode (server.update r.path r.node) :=
        KeyedTree.WellFormed.update hserver r.wellFormed r.valid
      have hvalues := ValidNode.values_update hserver r.wellFormed r.valid
      have hrest := ih hstep
      rw [hvalues] at hrest
      exact hrest

theorem madeOn_append (server : FNode) (front back : List FWriteRecord) :
    madeOn server (front ++ back) = madeOn (madeOn server front) back := by
  rw [madeOn, List.map_append]
  exact List.foldl_append

theorem madeOn_same {server server' : FNode} (hserver : ValidNode server)
    (hserver' : ValidNode server') {writes writes' : List FWriteRecord}
    (h : writeAll server.values (writes.map pathWrite) =
      writeAll server'.values (writes'.map pathWrite)) :
    KeyedTree.Same (madeOn server writes) (madeOn server' writes') := by
  rw [KeyedTree.Same, (values_madeOn hserver writes).right, (values_madeOn hserver' writes').right]
  exact h

/-- No pending write erases anything below a value of the server tree. -/
def ClearFor (server : FNode) (writes : List FWriteRecord) : Prop :=
  forall r, r ∈ writes -> r.node.isEmpty = true -> Clear server.values r.path

instance ClearFor.decidable (server : FNode) (writes : List FWriteRecord) :
    Decidable (ClearFor server writes) :=
  inferInstanceAs
    (Decidable (forall r, r ∈ writes -> r.node.isEmpty = true -> Clear server.values r.path))

theorem ClearFor.clearOf {server : FNode} {writes : List FWriteRecord}
    (h : ClearFor server writes) : ClearOf server.values (writes.map pathWrite) := by
  intro w hw hvacant
  rcases List.mem_map.mp hw with ⟨r, hr, rfl⟩
  exact h r hr (r.wellFormed.vacant_iff.mp hvacant)

theorem ClearFor.filter {server : FNode} {writes : List FWriteRecord}
    (h : ClearFor server writes) (f : FWriteRecord -> Bool) : ClearFor server (writes.filter f) :=
  fun r hr => h r (List.mem_of_mem_filter hr)

theorem ClearFor.same {server server' : FNode} {writes : List FWriteRecord}
    (h : ClearFor server writes) (hsame : KeyedTree.Same server' server) :
    ClearFor server' writes := by
  intro r hr hempty
  rw [show server'.values = server.values from hsame]
  exact h r hr hempty

/-- Laying the pending map over the server data makes the writes. -/
theorem applied_pendingWrites {server : FNode} (hserver : ValidNode server)
    {writes : List FWriteRecord} (hclear : ClearFor server writes) :
    applied (pendingWrites writes) server.values = (madeOn server writes).values := by
  rw [pendingWrites, applied_pendingOf hclear.clearOf, (values_madeOn hserver writes).right]

end FWriteTree

end Firebase
end MyMovies
