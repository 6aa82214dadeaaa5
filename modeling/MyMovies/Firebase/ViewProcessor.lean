import MyMovies.Firebase.WriteTree

/-!
# The view processor

`FViewProcessor` updates the two caches of a view after an operation: the data
of the server, and the data that events are raised with, which shows the pending
writes on top.  The event cache is not computed anew but changed at the path of
the operation, and the changes are tracked by child.  Views here are those of a
default query, the only kind that the application makes: no node is filtered,
and the filter is `FIndexedFilter`.  Priorities are left out.  `none` is a failed
assertion or an exception of the library.
-/

namespace MyMovies
namespace Firebase

open Foundation Overlay

/-!
## Tracked changes
-/

inductive FChange where
  | childAdded (childKey : String) (node : FNode)
  | childChanged (childKey : String) (node oldNode : FNode)
  | childRemoved (childKey : String) (node : FNode)

def FChange.childKey : FChange -> String
  | .childAdded childKey _ => childKey
  | .childChanged childKey _ _ => childKey
  | .childRemoved childKey _ => childKey

namespace FChildChangeAccumulator

/-- A change of a child after another one; the outer `none` is the exception for an
illegal combination. -/
def combine : FChange -> FChange -> Option (Option FChange)
  | .childRemoved _ oldNode, .childAdded childKey node =>
      some (some (.childChanged childKey node oldNode))
  | .childAdded _ _, .childRemoved _ _ => some none
  | .childChanged _ _ oldNode, .childRemoved childKey _ =>
      some (some (.childRemoved childKey oldNode))
  | .childAdded _ _, .childChanged childKey node _ => some (some (.childAdded childKey node))
  | .childChanged _ _ oldNode, .childChanged childKey node _ =>
      some (some (.childChanged childKey node oldNode))
  | _, _ => none

def trackChildChange (changeMap : List FChange) (change : FChange) : Option (List FChange) :=
  match changeMap.find? fun old => old.childKey == change.childKey with
  | none => some (changeMap ++ [change])
  | some oldChange =>
      (combine oldChange change).map fun newChange =>
        changeMap.filter (fun old => old.childKey != change.childKey) ++ newChange.toList

/-- The accumulated changes, from those tracked one after the other. -/
def changes (tracked : List FChange) : Option (List FChange) :=
  tracked.foldlM trackChildChange []

end FChildChangeAccumulator

/-!
## FIndexedFilter
-/

/-- The test of `updateChildIn` that nothing changed at the affected path. -/
def unchangedAt (node : FNode) (childKey : String) (newChildSnap : FNode)
    (affectedPath : List String) : Bool :=
  let oldChildSnap := node.child childKey
  KeyedTree.isEqual (oldChildSnap.descend affectedPath) (newChildSnap.descend affectedPath) &&
    oldChildSnap.isEmpty == newChildSnap.isEmpty

/-- What is tracked for a child; `none` is the failed assertion that a child that is
removed was there, unless the node is a leaf. -/
def childChange (node : FNode) (childKey : String) (newChildSnap : FNode) :
    Option (List FChange) :=
  let oldChildSnap := node.child childKey
  if newChildSnap.isEmpty then
    if hasChild node childKey then some [.childRemoved childKey oldChildSnap]
    else if node.isLeaf then some []
    else none
  else if oldChildSnap.isEmpty then
    some [.childAdded childKey newChildSnap]
  else
    some [.childChanged childKey newChildSnap oldChildSnap]

def updateChildIn (node : FNode) (childKey : String) (newChildSnap : FNode)
    (affectedPath : List String) : Option (FNode × List FChange) :=
  if unchangedAt node childKey newChildSnap affectedPath then
    -- the assertion of debug builds that the child is then unchanged everywhere
    if KeyedTree.isEqual (node.child childKey) newChildSnap then some (node, []) else none
  else
    (childChange node childKey newChildSnap).map fun tracked =>
      if node.isLeaf && newChildSnap.isEmpty then (node, tracked)
      else (node.setChild childKey newChildSnap, tracked)

def addedOrChanged (oldSnap : FNode) (c : Sigma fun _ : String => FNode) : Option FChange :=
  if hasChild oldSnap c.1 then
    if KeyedTree.isEqual (oldSnap.child c.1) c.2 then none
    else some (.childChanged c.1 c.2 (oldSnap.child c.1))
  else
    some (.childAdded c.1 c.2)

/-- What `updateFullNode` tracks; the updated node is the new one. -/
def fullChanges (oldSnap newSnap : FNode) : List FChange :=
  ((childrenOf oldSnap).filter fun c => !hasChild newSnap c.1).map
      (fun c => .childRemoved c.1 c.2) ++
    (childrenOf newSnap).filterMap (addedOrChanged oldSnap)

/-!
## FViewProcessor
-/

structure FViewCache where
  cachedEventSnap : FCacheNode
  cachedServerSnap : FCacheNode

def FViewCache.completeServerSnap (viewCache : FViewCache) : Option FNode :=
  if viewCache.cachedServerSnap.isFullyInitialized then some viewCache.cachedServerSnap.node
  else none

abbrev Processed := FViewCache × List FChange

namespace FViewProcessor

/-- `updateEventSnap:` with a node that was changed in one child. -/
def updateEventChild (viewCache : FViewCache) (childKey : String) (newChild : FNode)
    (affectedPath : List String) (isComplete : Bool) : Option Processed :=
  (updateChildIn viewCache.cachedEventSnap.node childKey newChild affectedPath).map fun updated =>
    ({ viewCache with
        cachedEventSnap := { node := updated.1, isFullyInitialized := isComplete } },
      updated.2)

/-- The child of the event cache after a server event at a path below it. -/
def newEventChild (viewCache : FViewCache) (childKey : String) (childChangePath : List String)
    (writesCache : FWriteTree) : Option FNode :=
  let oldEventSnap := viewCache.cachedEventSnap
  let serverSnap := viewCache.cachedServerSnap
  if oldEventSnap.isCompleteForChild childKey then
    match writesCache.calculateEventCacheAfterServerOverwriteAtPath []
        (childKey :: childChangePath) serverSnap.node with
    | some eventChildUpdate =>
        some ((oldEventSnap.node.child childKey).update childChangePath eventChildUpdate)
    | none => some (oldEventSnap.node.child childKey)
  else
    writesCache.calculateCompleteChildAtPath [] childKey serverSnap

def generateEventCacheAfterServerEvent (viewCache : FViewCache) (changePath : List String)
    (writesCache : FWriteTree) : Option Processed :=
  let oldEventSnap := viewCache.cachedEventSnap
  let serverSnap := viewCache.cachedServerSnap
  if (writesCache.shadowingWriteAtPath changePath).isSome then
    some (viewCache, [])
  else
    match changePath with
    | [] =>
        if serverSnap.isFullyInitialized then
          (writesCache.calculateCompleteEventCacheAtPath [] viewCache.completeServerSnap
              none false).map fun nodeWithLocalWrites =>
            ({ viewCache with
                cachedEventSnap := { node := nodeWithLocalWrites, isFullyInitialized := true } },
              fullChanges oldEventSnap.node nodeWithLocalWrites)
        else
          none
    | childKey :: childChangePath =>
        match newEventChild viewCache childKey childChangePath writesCache with
        | some newChild =>
            updateEventChild viewCache childKey newChild childChangePath
              oldEventSnap.isFullyInitialized
        | none => some (viewCache, [])

def applyServerOverwriteTo (oldViewCache : FViewCache) (changePath : List String)
    (changedSnap : FNode) (writesCache : FWriteTree) : Option Processed :=
  let oldServerSnap := oldViewCache.cachedServerSnap
  match changePath with
  | [] =>
      let newViewCache := { oldViewCache with
        cachedServerSnap := { node := changedSnap, isFullyInitialized := true } }
      generateEventCacheAfterServerEvent newViewCache changePath writesCache
  | childKey :: childChangePath =>
      if !oldServerSnap.isCompleteForPath changePath && decide (changePath.length > 1) then
        -- an update intended for another listener
        some (oldViewCache, [])
      else
        let newChildNode := (oldServerSnap.node.child childKey).update childChangePath changedSnap
        -- without an accumulator: what is tracked is dropped
        (updateChildIn oldServerSnap.node childKey newChildNode childChangePath).bind fun updated =>
          let newViewCache := { oldViewCache with
            cachedServerSnap :=
              { node := updated.1, isFullyInitialized := oldServerSnap.isFullyInitialized } }
          generateEventCacheAfterServerEvent newViewCache changePath writesCache

/-- `FWriteTreeCompleteChildSource completeChild:`. -/
def completeChild (viewCache : FViewCache) (writesCache : FWriteTree)
    (optCompleteServerCache : Option FNode) (childKey : String) : Option FNode :=
  if viewCache.cachedEventSnap.isCompleteForChild childKey then
    some (viewCache.cachedEventSnap.node.child childKey)
  else
    let serverNode :=
      match optCompleteServerCache with
      | some node => { node := node, isFullyInitialized := true }
      | none => viewCache.cachedServerSnap
    writesCache.calculateCompleteChildAtPath [] childKey serverNode

def applyUserOverwriteTo (oldViewCache : FViewCache) (changePath : List String)
    (changedSnap : FNode) (writesCache : FWriteTree) (optCompleteCache : Option FNode) :
    Option Processed :=
  let oldEventSnap := oldViewCache.cachedEventSnap
  match changePath with
  | [] =>
      some
        ({ oldViewCache with
            cachedEventSnap := { node := changedSnap, isFullyInitialized := true } },
          fullChanges oldEventSnap.node changedSnap)
  | childKey :: childChangePath =>
      let newChild :=
        match childChangePath with
        | [] => changedSnap
        | _ :: _ =>
            match completeChild oldViewCache writesCache optCompleteCache childKey with
            | some childNode => childNode.update childChangePath changedSnap
            | none => KeyedTree.empty
      if KeyedTree.isEqual (oldEventSnap.node.child childKey) newChild then
        some (oldViewCache, [])
      else
        updateEventChild oldViewCache childKey newChild childChangePath
          oldEventSnap.isFullyInitialized

/-- One of the two loops of `applyServerMergeTo:`, over the children it takes. -/
def applyServerChildren (serverNode : FNode) (writesCache : FWriteTree) :
    List (String × FCompoundWrite) -> FViewCache -> Option Processed
  | [], viewCache => some (viewCache, [])
  | (childKey, childMerge) :: rest, viewCache =>
      (applyServerOverwriteTo viewCache [childKey]
          (childMerge.applyToNode (serverNode.child childKey)) writesCache).bind fun first =>
        (applyServerChildren serverNode writesCache rest first.1).map fun last =>
          (last.1, first.2 ++ last.2)

/-- `applyServerMergeTo:` at the root of the view. -/
def applyServerMergeTo (viewCache : FViewCache) (changedChildren : FCompoundWrite)
    (writesCache : FWriteTree) : Option Processed :=
  let serverSnap := viewCache.cachedServerSnap
  if serverSnap.node.isEmpty && !serverSnap.isFullyInitialized then
    some (viewCache, [])
  else
    let known := changedChildren.childCompoundWrites.filter fun c =>
      hasChild serverSnap.node c.1
    let others := changedChildren.childCompoundWrites.filter fun c =>
      !hasChild serverSnap.node c.1 &&
        !(!serverSnap.isCompleteForChild c.1 && c.2.rootWrite.isNone)
    (applyServerChildren serverSnap.node writesCache known viewCache).bind fun first =>
      (applyServerChildren serverSnap.node writesCache others first.1).map fun last =>
        (last.1, first.2 ++ last.2)

/-- `ackUserWriteOn:` for an overwrite: the data of the server is applied anew
where the write does not shadow it any more. -/
def ackUserWriteOn (viewCache : FViewCache) (ackPath : List String) (writesCache : FWriteTree) :
    Option Processed :=
  let serverCache := viewCache.cachedServerSnap
  if (writesCache.shadowingWriteAtPath ackPath).isSome then
    some (viewCache, [])
  else if serverCache.isCompleteForPath ackPath then
    applyServerOverwriteTo viewCache ackPath (serverCache.node.descend ackPath) writesCache
  else
    match ackPath with
    | [] =>
        let changedChildren := (childrenOf serverCache.node).foldl
          (fun changedChildren child => changedChildren.addWrite child.2 [child.1])
          FCompoundWrite.emptyWrite
        applyServerMergeTo viewCache changedChildren writesCache
    | _ :: _ => some (viewCache, [])

/-- The event cache of a reverted view, with what is tracked on the way. -/
def revertedChild (viewCache : FViewCache) (childKey : String) (rest : List String)
    (writesCache : FWriteTree) : Option (FNode × List FChange) :=
  let oldEventCache := viewCache.cachedEventSnap.node
  let serverSnap := viewCache.cachedServerSnap
  let newChild :=
    match writesCache.calculateCompleteChildAtPath [] childKey serverSnap with
    | some newChild => some newChild
    | none =>
        if serverSnap.isCompleteForChild childKey then some (oldEventCache.child childKey)
        else none
  match newChild with
  | some newChild => updateChildIn oldEventCache childKey newChild rest
  | none =>
      if hasChild oldEventCache childKey then
        updateChildIn oldEventCache childKey KeyedTree.empty rest
      else
        some (oldEventCache, [])

/-- If all children are gone, the old data of the server may have been a leaf. -/
def restoreLeaf (viewCache : FViewCache) (writesCache : FWriteTree)
    (reverted : FNode × List FChange) : Option (FNode × List FChange) :=
  if reverted.1.isEmpty && viewCache.cachedServerSnap.isFullyInitialized then
    (writesCache.calculateCompleteEventCacheAtPath [] viewCache.completeServerSnap none false).map
      fun complete =>
        if complete.isLeaf then (complete, reverted.2 ++ fullChanges reverted.1 complete)
        else reverted
  else
    some reverted

def revertUserWriteOn (viewCache : FViewCache) (path : List String) (writesCache : FWriteTree) :
    Option Processed :=
  let serverSnap := viewCache.cachedServerSnap
  if (writesCache.shadowingWriteAtPath path).isSome then
    some (viewCache, [])
  else
    let newEventCache :=
      match path with
      | [] =>
          let newNode :=
            if serverSnap.isFullyInitialized then
              writesCache.calculateCompleteEventCacheAtPath [] viewCache.completeServerSnap
                none false
            else
              some (writesCache.calculateCompleteEventChildrenAtPath [] serverSnap.node)
          newNode.map fun newNode =>
            (newNode, fullChanges viewCache.cachedEventSnap.node newNode)
      | childKey :: rest =>
          (revertedChild viewCache childKey rest writesCache).bind
            (restoreLeaf viewCache writesCache)
    newEventCache.map fun updated =>
      ({ viewCache with
          cachedEventSnap :=
            { node := updated.1
              isFullyInitialized := serverSnap.isFullyInitialized ||
                (writesCache.shadowingWriteAtPath []).isSome } },
        updated.2)

/-- `FListenComplete` at the root of the view. -/
def listenCompleteOldCache (viewCache : FViewCache) (writesCache : FWriteTree) :
    Option Processed :=
  let newViewCache := { viewCache with
    cachedServerSnap := { viewCache.cachedServerSnap with isFullyInitialized := true } }
  generateEventCacheAfterServerEvent newViewCache [] writesCache

/-- Whether `maybeAddValueFromOldViewCache:` adds a value change. -/
def addsValue (oldViewCache newViewCache : FViewCache) (changes : List FChange) : Bool :=
  let eventSnap := newViewCache.cachedEventSnap
  let oldSnap := oldViewCache.cachedEventSnap
  eventSnap.isFullyInitialized &&
    (!changes.isEmpty || !oldSnap.isFullyInitialized ||
      ((eventSnap.node.isLeaf || eventSnap.node.isEmpty) &&
        !KeyedTree.isEqual eventSnap.node oldSnap.node))

end FViewProcessor

/-!
## The filter
-/

theorem ValidNode.child {node : FNode} (h : ValidNode node) (k : String) :
    ValidNode (node.child k) :=
  KeyedTree.WellFormed.child h k

theorem ValidNode.update {node new : FNode} (hnode : ValidNode node) (hnew : ValidNode new)
    {path : List String} (hpath : ValidPath path) : ValidNode (node.update path new) :=
  KeyedTree.WellFormed.update hnode hnew hpath

theorem ValidNode.descend {node : FNode} (h : ValidNode node) (path : List String) :
    ValidNode (node.descend path) :=
  KeyedTree.WellFormed.descend h path

theorem validNode_empty : ValidNode KeyedTree.empty := KeyedTree.wellFormed_empty _

theorem hasChild_iff {node : FNode} {k : String} :
    hasChild node k = true <-> (node.child k).isEmpty = false := by
  rw [hasChild, Bool.not_eq_true']

theorem isLeaf_of_hasChild {node : FNode} {k : String} (h : hasChild node k = true) :
    node.isLeaf = false := by
  cases node with
  | leaf v => cases h
  | node cs => rfl

theorem unchangedAt_iff {node newChild : FNode} (hnode : ValidNode node)
    (hnew : ValidNode newChild) {childKey : String} {affectedPath : List String} :
    unchangedAt node childKey newChild affectedPath = true <->
      (forall q, node.values (childKey :: affectedPath ++ q) =
        newChild.values (affectedPath ++ q)) ∧
      (node.child childKey).isEmpty = newChild.isEmpty := by
  unfold unchangedAt
  rw [Bool.and_eq_true, beq_iff_eq,
    KeyedTree.isEqual_iff ((hnode.child childKey).descend affectedPath)
      (hnew.descend affectedPath), KeyedTree.Same, funext_iff]
  simp only [KeyedTree.values_descend]
  rfl

theorem unchangedAt_of_same {node newChild : FNode} (hnode : ValidNode node)
    (hnew : ValidNode newChild) {childKey : String} (affectedPath : List String)
    (h : KeyedTree.Same newChild (node.child childKey)) :
    unchangedAt node childKey newChild affectedPath = true := by
  rw [unchangedAt_iff hnode hnew]
  exact ⟨fun q => (congrFun h (affectedPath ++ q)).symm,
    (h.isEmpty hnew (hnode.child childKey)).symm⟩

/-- The child is the same when it is unchanged at the affected path. -/
def Settled (node : FNode) (childKey : String) (newChildSnap : FNode)
    (affectedPath : List String) : Prop :=
  unchangedAt node childKey newChildSnap affectedPath = true ->
    KeyedTree.Same (node.child childKey) newChildSnap

theorem settled_update {node new : FNode} (hnode : ValidNode node) (hnew : ValidNode new)
    {childKey : String} {rest : List String} (hpath : ValidPath (childKey :: rest)) :
    Settled node childKey ((node.child childKey).update rest new) rest := by
  intro hunchanged
  have hchild := hnode.child childKey
  have hat := ((unchangedAt_iff hnode (hchild.update hnew hpath.tail)).mp hunchanged).left
  have hvalues := ValidNode.values_update hchild hnew hpath.tail
  rw [KeyedTree.Same, hvalues]
  symm
  apply write_self (KeyedTree.solid_values _)
  intro q
  have hq := hat q
  rw [hvalues, write_below] at hq
  exact hq

theorem settled_missing {node : FNode} {childKey : String}
    (hmissing : (node.child childKey).isEmpty = true) (newChild : FNode)
    (affectedPath : List String) : Settled node childKey newChild affectedPath := by
  intro hunchanged
  have hempty : (node.child childKey).isEmpty = newChild.isEmpty :=
    beq_iff_eq.mp (Bool.and_eq_true_iff.mp hunchanged).right
  rw [hmissing] at hempty
  rw [KeyedTree.isEmpty_iff.mp hmissing, KeyedTree.isEmpty_iff.mp hempty.symm]
  rfl

theorem settled_child {node newChild : FNode} (hnode : ValidNode node) (hnew : ValidNode newChild)
    (childKey : String) : Settled node childKey newChild [] := by
  intro hunchanged
  funext q
  exact ((unchangedAt_iff hnode hnew).mp hunchanged).left q

/-- What `updateChildIn` returns: nothing is tracked only if the node stays, and what is
tracked is a change of the values. -/
structure Updated (node : FNode) (childKey : String) (newChild : FNode)
    (updated : FNode × List FChange) : Prop where
  valid : ValidNode updated.1
  values : updated.1.values = write node.values [childKey] newChild.values
  tracked : (updated.2.map FChange.childKey).Sublist [childKey]
  quiet : updated.2 = [] -> updated.1 = node
  loud : (forall q, updated.1.values (childKey :: q) = node.values (childKey :: q)) ->
    updated.2 = []
  leaf : node.isLeaf = true -> updated.1.isEmpty = false

theorem updated_same {node newChild : FNode} (hnode : ValidNode node) {childKey : String}
    (h : KeyedTree.Same (node.child childKey) newChild) :
    Updated node childKey newChild (node, []) where
  valid := hnode
  values := by
    symm
    apply write_self (KeyedTree.solid_values node)
    intro q
    exact congrFun h q
  tracked := List.nil_sublist _
  quiet := fun _ => rfl
  loud := fun _ => rfl
  leaf := fun hleaf => by
    cases node with
    | leaf v => rfl
    | node cs => cases hleaf

theorem childChange_spec {node newChild : FNode} {childKey : String}
    (hmissing : ¬ ((node.child childKey).isEmpty = true ∧ newChild.isEmpty = true)) :
    exists tracked, childChange node childKey newChild = some tracked ∧ tracked ≠ [] ∧
      tracked.map FChange.childKey = [childKey] := by
  unfold childChange
  cases hempty : newChild.isEmpty with
  | false =>
      simp only [Bool.false_eq_true, if_false]
      split
      · exact ⟨_, rfl, List.cons_ne_nil _ _, rfl⟩
      · exact ⟨_, rfl, List.cons_ne_nil _ _, rfl⟩
  | true =>
      have hchild : hasChild node childKey = true := by
        rw [hasChild_iff]
        simpa [hempty] using hmissing
      simp only [hchild, if_true]
      exact ⟨_, rfl, List.cons_ne_nil _ _, rfl⟩

theorem updatedNode_eq (node : FNode) (childKey : String) (newChildSnap : FNode)
    (tracked : List FChange) :
    (if node.isLeaf && newChildSnap.isEmpty then (node, tracked)
      else (node.setChild childKey newChildSnap, tracked)) =
      (node.setChild childKey newChildSnap, tracked) := by
  cases node with
  | node cs => rfl
  | leaf v => cases hempty : newChildSnap.isEmpty <;> simp [KeyedTree.isLeaf,
      KeyedTree.setChild, hempty]

theorem updateChildIn_spec {node newChild : FNode} (hnode : ValidNode node)
    (hnew : ValidNode newChild) {childKey : String} (hkey : isValidKey childKey = true)
    {affectedPath : List String} {updated : FNode × List FChange}
    (h : updateChildIn node childKey newChild affectedPath = some updated) :
    Updated node childKey newChild updated := by
  have hchild := hnode.child childKey
  by_cases hunchanged : unchangedAt node childKey newChild affectedPath = true
  · rw [updateChildIn, if_pos hunchanged] at h
    split at h
    · rename_i hequal
      cases h
      exact updated_same hnode ((KeyedTree.isEqual_iff hchild hnew).mp hequal)
    · cases h
  · have hchanged : ¬ KeyedTree.Same newChild (node.child childKey) :=
      fun hsame => hunchanged (unchangedAt_of_same hnode hnew affectedPath hsame)
    have hmissing : ¬ ((node.child childKey).isEmpty = true ∧ newChild.isEmpty = true) := by
      rintro ⟨hold, hempty⟩
      exact hunchanged (unchangedAt_of_same hnode hnew affectedPath
        (by rw [KeyedTree.isEmpty_iff.mp hold, KeyedTree.isEmpty_iff.mp hempty]; rfl))
    rcases childChange_spec hmissing with ⟨tracked, htracked, hne, hkeys⟩
    rw [updateChildIn, if_neg hunchanged, htracked, Option.map_some, updatedNode_eq] at h
    cases h
    have hvalues := KeyedTree.WellFormed.values_setChild (k := childKey) hnode hnew
    exact
      { valid := KeyedTree.WellFormed.setChild hnode hnew hkey
        values := hvalues
        tracked := by rw [hkeys]
        quiet := fun hnil => absurd hnil hne
        loud := by
          intro hsame
          apply absurd _ hchanged
          funext q
          have hq := hsame q
          rw [hvalues, show childKey :: q = [childKey] ++ q from rfl, write_below] at hq
          exact hq
        leaf := by
          intro hleaf
          cases node with
          | node cs => cases hleaf
          | leaf v =>
              rw [KeyedTree.setChild]
              split <;> rfl }

theorem updateChildIn_total {node newChild : FNode} (hnode : ValidNode node)
    (hnew : ValidNode newChild) {childKey : String} {affectedPath : List String}
    (h : Settled node childKey newChild affectedPath) :
    exists updated, updateChildIn node childKey newChild affectedPath = some updated := by
  by_cases hunchanged : unchangedAt node childKey newChild affectedPath = true
  · have hequal := (KeyedTree.isEqual_iff (hnode.child childKey) hnew).mpr (h hunchanged)
    rw [updateChildIn, if_pos hunchanged, if_pos hequal]
    exact ⟨_, rfl⟩
  · have hmissing : ¬ ((node.child childKey).isEmpty = true ∧ newChild.isEmpty = true) := by
      rintro ⟨hold, hempty⟩
      exact hunchanged (unchangedAt_of_same hnode hnew affectedPath
        (by rw [KeyedTree.isEmpty_iff.mp hold, KeyedTree.isEmpty_iff.mp hempty]; rfl))
    rcases childChange_spec hmissing with ⟨tracked, htracked, _⟩
    rw [updateChildIn, if_neg hunchanged, htracked]
    exact ⟨_, rfl⟩

theorem write_update {node new : FNode} (hnode : ValidNode node) (hnew : ValidNode new)
    {childKey : String} {rest : List String} (hpath : ValidPath (childKey :: rest)) :
    write node.values [childKey] ((node.child childKey).update rest new).values =
      write node.values (childKey :: rest) new.values := by
  have hchild := (hnode.child childKey).update hnew hpath.tail
  rw [← KeyedTree.WellFormed.values_setChild hnode hchild, ← KeyedTree.update_cons,
    ValidNode.values_update hnode hnew hpath]

theorem mem_childrenOf {node : FNode} (hnode : ValidNode node)
    {c : Sigma fun _ : String => FNode} (hc : c ∈ childrenOf node) :
    isValidKey c.1 = true ∧ ValidNode c.2 ∧ node.child c.1 = c.2 ∧ hasChild node c.1 = true := by
  cases hnode with
  | leaf v => cases hc
  | node cs hnd hvalid hne hwf =>
      have hchild := KeyedTree.child_node_of_mem hnd hc
      refine ⟨hvalid c hc, hwf c hc, hchild, ?_⟩
      rw [hasChild_iff, hchild]
      exact hne c hc

theorem mem_childrenOf_of_hasChild {node : FNode} {k : String} (h : hasChild node k = true) :
    (⟨k, node.child k⟩ : Sigma fun _ : String => FNode) ∈ childrenOf node := by
  cases node with
  | leaf v => cases h
  | node cs =>
      rw [hasChild_iff] at h
      cases hlook : cs.dlookup k with
      | none =>
          rw [KeyedTree.child, hlook] at h
          cases h
      | some c =>
          rw [KeyedTree.child, hlook]
          exact List.of_mem_dlookup (Option.mem_def.mpr hlook)

theorem nodup_childrenOf {node : FNode} (hnode : ValidNode node) :
    ((childrenOf node).map Sigma.fst).Nodup := by
  cases hnode with
  | leaf v => exact List.nodup_nil
  | node cs hnd hvalid hne hwf => exact hnd

theorem addedOrChanged_key {oldSnap : FNode} {c : Sigma fun _ : String => FNode}
    {change : FChange} (h : addedOrChanged oldSnap c = some change) : change.childKey = c.1 := by
  unfold addedOrChanged at h
  split at h
  · split at h
    · cases h
    · cases h
      rfl
  · cases h
    rfl

theorem keys_addedOrChanged (oldSnap : FNode) (cs : List (Sigma fun _ : String => FNode)) :
    ((cs.filterMap (addedOrChanged oldSnap)).map FChange.childKey).Sublist
      (cs.map Sigma.fst) := by
  induction cs with
  | nil => exact List.Sublist.refl _
  | cons c cs ih =>
      cases hchange : addedOrChanged oldSnap c with
      | none =>
          rw [List.filterMap_cons_none hchange]
          exact ih.cons c.1
      | some change =>
          rw [List.filterMap_cons_some hchange, List.map_cons, List.map_cons,
            addedOrChanged_key hchange]
          exact ih.cons_cons c.1

theorem nodup_fullChanges {oldSnap newSnap : FNode} (hold : ValidNode oldSnap)
    (hnew : ValidNode newSnap) : ((fullChanges oldSnap newSnap).map FChange.childKey).Nodup := by
  have hremoved : (((childrenOf oldSnap).filter fun c => !hasChild newSnap c.1).map
      (fun c => FChange.childRemoved c.1 c.2)).map FChange.childKey =
      ((childrenOf oldSnap).filter fun c => !hasChild newSnap c.1).map Sigma.fst := by
    rw [List.map_map]
    rfl
  rw [fullChanges, List.map_append, hremoved]
  apply List.nodup_append'.mpr
  refine ⟨(nodup_childrenOf hold).sublist (List.filter_sublist.map _),
    (nodup_childrenOf hnew).sublist (keys_addedOrChanged oldSnap _), ?_⟩
  intro k hk hk'
  rcases List.mem_map.mp hk with ⟨c, hc, rfl⟩
  rcases List.mem_map.mp ((keys_addedOrChanged oldSnap _).subset hk') with ⟨c', hc', heq⟩
  have hnot := (List.mem_filter.mp hc).right
  rw [← heq, (mem_childrenOf hnew hc').right.right.right] at hnot
  cases hnot

theorem same_of_fullChanges_nil {oldSnap newSnap : FNode} (hold : ValidNode oldSnap)
    (hnew : ValidNode newSnap) (h : fullChanges oldSnap newSnap = []) :
    KeyedTree.Same newSnap oldSnap ∨ newSnap.isLeaf = true ∨ newSnap.isEmpty = true := by
  rcases List.append_eq_nil_iff.mp h with ⟨hremoved, hadded⟩
  have hkept : forall k, hasChild oldSnap k = true -> hasChild newSnap k = true := by
    intro k hk
    by_contra hnot
    have hmem : (⟨k, oldSnap.child k⟩ : Sigma fun _ : String => FNode) ∈
        (childrenOf oldSnap).filter fun c => !hasChild newSnap c.1 :=
      List.mem_filter.mpr ⟨mem_childrenOf_of_hasChild hk, by simpa using hnot⟩
    rw [List.map_eq_nil_iff.mp hremoved] at hmem
    cases hmem
  have hequal : forall k, hasChild newSnap k = true -> hasChild oldSnap k = true ∧
      KeyedTree.isEqual (oldSnap.child k) (newSnap.child k) = true := by
    intro k hk
    have hnone := List.filterMap_eq_nil_iff.mp hadded _ (mem_childrenOf_of_hasChild hk)
    unfold addedOrChanged at hnone
    cases hchild : hasChild oldSnap k with
    | false => simp [hchild] at hnone
    | true => simpa [hchild] using hnone
  cases hleaf : newSnap.isLeaf with
  | true => exact Or.inr (Or.inl rfl)
  | false =>
      cases hempty : newSnap.isEmpty with
      | true => exact Or.inr (Or.inr rfl)
      | false =>
          left
          have hsomeChild : exists k, hasChild newSnap k = true := by
            by_contra hnone
            have hall := (KeyedTree.isEmpty_iff_child hnew hleaf).mpr (by
              intro k
              by_contra hk
              exact hnone ⟨k, hasChild_iff.mpr (by simpa using hk)⟩)
            rw [hempty] at hall
            cases hall
          rcases hsomeChild with ⟨k₀, hk₀⟩
          apply KeyedTree.same_iff.mpr
          constructor
          · have hnewLeaf : newSnap.leafValue = none := by
              cases newSnap with
              | leaf v => cases hleaf
              | node cs => rfl
            have holdLeaf : oldSnap.leafValue = none := by
              have hnode := isLeaf_of_hasChild (hequal k₀ hk₀).left
              cases oldSnap with
              | leaf v => cases hnode
              | node cs => rfl
            rw [hnewLeaf, holdLeaf]
          · intro k
            cases hk : hasChild newSnap k with
            | true =>
                exact ((KeyedTree.isEqual_iff (hold.child k) (hnew.child k)).mp
                  (hequal k hk).right).symm
            | false =>
                have hk' : hasChild oldSnap k = false := by
                  by_contra hcon
                  rw [hkept k (by simpa using hcon)] at hk
                  cases hk
                have hnone : newSnap.child k = KeyedTree.empty :=
                  KeyedTree.isEmpty_iff.mp (by simpa [hasChild] using hk)
                have hnone' : oldSnap.child k = KeyedTree.empty :=
                  KeyedTree.isEmpty_iff.mp (by simpa [hasChild] using hk')
                rw [hnone, hnone']
                rfl

theorem fullChanges_of_same {oldSnap newSnap : FNode} (hold : ValidNode oldSnap)
    (hnew : ValidNode newSnap) (h : KeyedTree.Same newSnap oldSnap) :
    fullChanges oldSnap newSnap = [] := by
  have hhas : forall k, hasChild newSnap k = hasChild oldSnap k := by
    intro k
    rw [hasChild, hasChild, (h.child k).isEmpty (hnew.child k) (hold.child k)]
  have hremoved : (childrenOf oldSnap).filter (fun c => !hasChild newSnap c.1) = [] := by
    rw [List.filter_eq_nil_iff]
    intro c hc
    rw [hhas, (mem_childrenOf hold hc).right.right.right]
    simp
  have hadded : (childrenOf newSnap).filterMap (addedOrChanged oldSnap) = [] := by
    rw [List.filterMap_eq_nil_iff]
    intro c hc
    rcases mem_childrenOf hnew hc with ⟨_, hwf, hchild, hc⟩
    have hequal : KeyedTree.isEqual (oldSnap.child c.1) c.2 = true := by
      rw [KeyedTree.isEqual_iff (hold.child c.1) hwf, ← hchild]
      exact (h.child c.1).symm
    rw [addedOrChanged, if_pos ((hhas c.1).symm.trans hc), if_pos hequal]
  rw [fullChanges, hremoved, hadded]
  rfl

theorem changes_of_nodup {tracked : List FChange}
    (h : (tracked.map FChange.childKey).Nodup) :
    FChildChangeAccumulator.changes tracked = some tracked := by
  have hfold : forall front : List FChange,
      ((front ++ tracked).map FChange.childKey).Nodup ->
        tracked.foldlM FChildChangeAccumulator.trackChildChange front =
          some (front ++ tracked) := by
    induction tracked with
    | nil => intro front _; simp
    | cons change rest ih =>
        intro front hnodup
        have hnone : (front.find? fun old => old.childKey == change.childKey) = none := by
          rw [List.find?_eq_none]
          intro old hold heq
          rw [List.map_append, List.nodup_append'] at hnodup
          apply hnodup.right.right (List.mem_map_of_mem hold)
          rw [beq_iff_eq.mp heq, List.map_cons]
          exact List.mem_cons_self
        rw [List.foldlM_cons, FChildChangeAccumulator.trackChildChange, hnone]
        have hrest := ih (List.nodup_cons.mp h).right (front ++ [change]) (by simpa using hnodup)
        simpa using hrest
  exact hfold [] h

/-!
## What an operation keeps
-/

structure FViewCache.Valid (viewCache : FViewCache) : Prop where
  event : ValidNode viewCache.cachedEventSnap.node
  server : ValidNode viewCache.cachedServerSnap.node

/-- What every operation guarantees of its result. -/
structure Sound (old : FViewCache) (r : Processed) : Prop where
  valid : r.1.Valid
  once : (r.2.map FChange.childKey).Nodup
  /-- Only a change to a leaf or to the empty node may go untracked. -/
  quiet : r.2 = [] ->
    KeyedTree.Same r.1.cachedEventSnap.node old.cachedEventSnap.node ∨
      r.1.cachedEventSnap.node.isLeaf = true ∨ r.1.cachedEventSnap.node.isEmpty = true
  /-- What is tracked is a change of the values. -/
  loud : KeyedTree.Same r.1.cachedEventSnap.node old.cachedEventSnap.node -> r.2 = []
  kept : old.cachedServerSnap.isFullyInitialized = true ->
    r.1.cachedServerSnap.isFullyInitialized = true

namespace FViewProcessor

variable {viewCache : FViewCache} {writesCache : FWriteTree}

/-- What is pending for the view. -/
noncomputable abbrev pending (writesCache : FWriteTree) : Pending String LeafValue :=
  FWriteTree.pendingWrites writesCache.allWrites

theorem sound_same (hvalid : viewCache.Valid) : Sound viewCache (viewCache, []) where
  valid := hvalid
  once := List.nodup_nil
  quiet := fun _ => Or.inl rfl
  loud := fun _ => rfl
  kept := id

theorem shadowing_eq_none_iff (htree : writesCache.Inv) {path : List String} :
    (writesCache.shadowingWriteAtPath path).isSome = false <-> pending writesCache path = none := by
  rw [FWriteTree.shadowingWriteAtPath, Option.isSome_eq_false_iff, Option.isNone_iff_eq_none,
    FCompoundWrite.completeNode_isSome_iff, htree.pending]

theorem complete_of_full {cache : FCacheNode} (h : cache.isFullyInitialized = true)
    (childKey : String) : cache.isCompleteForChild childKey = true := by
  rw [FCacheNode.isCompleteForChild, h, Bool.true_or]

theorem isEmpty_of_incomplete {cache : FCacheNode} {childKey : String}
    (h : cache.isCompleteForChild childKey = false) :
    cache.isFullyInitialized = false ∧ (cache.node.child childKey).isEmpty = true := by
  rw [FCacheNode.isCompleteForChild, Bool.or_eq_false_iff] at h
  exact ⟨h.left, by simpa [hasChild] using h.right⟩

structure ChildUpdate (old : FViewCache) (childKey : String) (r : Processed) : Prop where
  tracked : (r.2.map FChange.childKey).Sublist [childKey]
  apart : forall j q, j ≠ childKey ->
    r.1.cachedEventSnap.node.values (j :: q) = old.cachedEventSnap.node.values (j :: q)
  heard : (forall q, r.1.cachedEventSnap.node.values (childKey :: q) =
    old.cachedEventSnap.node.values (childKey :: q)) -> r.2 = []

theorem childUpdate_same (old : FViewCache) (childKey : String) :
    ChildUpdate old childKey (old, []) where
  tracked := List.nil_sublist _
  apart := fun _ _ _ => rfl
  heard := fun _ => rfl

structure EventChild (old : FViewCache) (childKey : String) (newChild : FNode)
    (isComplete : Bool) (r : Processed) : Prop extends Sound old r, ChildUpdate old childKey r where
  server : r.1.cachedServerSnap = old.cachedServerSnap
  full : r.1.cachedEventSnap.isFullyInitialized = isComplete
  values : r.1.cachedEventSnap.node.values =
    write old.cachedEventSnap.node.values [childKey] newChild.values

theorem EventChild.below {old : FViewCache} {childKey : String} {newChild : FNode}
    {isComplete : Bool} {r : Processed} (h : EventChild old childKey newChild isComplete r)
    (q : List String) : r.1.cachedEventSnap.node.values (childKey :: q) = newChild.values q := by
  rw [h.values]
  exact write_below _ [childKey] _ q

theorem updateEventChild_spec (hvalid : viewCache.Valid) {childKey : String}
    (hkey : isValidKey childKey = true) {newChild : FNode} (hnew : ValidNode newChild)
    {affectedPath : List String} (isComplete : Bool)
    (hsettled : Settled viewCache.cachedEventSnap.node childKey newChild affectedPath) :
    exists r, updateEventChild viewCache childKey newChild affectedPath isComplete = some r ∧
      EventChild viewCache childKey newChild isComplete r := by
  rcases updateChildIn_total hvalid.event hnew hsettled with ⟨updated, hupdated⟩
  have hspec := updateChildIn_spec hvalid.event hnew hkey hupdated
  refine ⟨_, congrArg (Option.map _) hupdated, ?_⟩
  exact
    { valid := ⟨hspec.valid, hvalid.server⟩
      once := (List.nodup_singleton childKey).sublist hspec.tracked
      quiet := by
        intro hnil
        left
        show KeyedTree.Same updated.1 _
        rw [hspec.quiet hnil]
        rfl
      loud := fun hsame => hspec.loud fun q => congrFun hsame (childKey :: q)
      kept := id
      tracked := hspec.tracked
      apart := by
        intro j q hj
        show updated.1.values (j :: q) = _
        rw [hspec.values, write_cons_ne _ hj]
      heard := hspec.loud
      server := rfl
      full := rfl
      values := hspec.values }

theorem eventChildUpdate_spec (htree : writesCache.Inv) {path : List String} {server : FNode}
    (hserver : ValidNode server) (hnone : pending writesCache path = none) :
    exists update, writesCache.calculateEventCacheAfterServerOverwriteAtPath [] path server =
        some update ∧ ValidNode update ∧
      update.values = fun q => applied (pending writesCache) server.values (path ++ q) := by
  have hdescend := hserver.descend path
  have hwf := htree.wellFormed.childCompoundWriteAtPath path
  have hchild := FCompoundWrite.pending_childCompoundWriteAtPath htree.wellFormed path
  have hcomplete : writesCache.visibleWrites.hasCompleteWriteAtPath path = false :=
    (shadowing_eq_none_iff htree).mpr hnone
  have hshift : applied (writesCache.visibleWrites.childCompoundWriteAtPath path).pending
      (server.descend path).values =
        fun q => applied (pending writesCache) server.values (path ++ q) := by
    funext q
    rw [hchild, htree.pending, ← applied_shift]
    congr 1
    funext r
    exact KeyedTree.values_descend server path r
  unfold FWriteTree.calculateEventCacheAfterServerOverwriteAtPath
  simp only [List.nil_append, hcomplete, Bool.false_eq_true, if_false]
  cases hempty : (writesCache.visibleWrites.childCompoundWriteAtPath path).isEmpty with
  | true =>
      refine ⟨server.descend path, rfl, hdescend, ?_⟩
      rw [← hshift, FCompoundWrite.pending_of_isEmpty hempty, applied_none]
  | false =>
      exact ⟨_, rfl, hwf.applyToNode hdescend,
        (FCompoundWrite.values_applyToNode hwf hdescend).trans hshift⟩

theorem completeChild_spec (htree : writesCache.Inv) {cache : FCacheNode}
    (hcache : ValidNode cache.node) {childKey : String} {child : FNode}
    (h : writesCache.calculateCompleteChildAtPath [] childKey cache = some child) :
    ValidNode child ∧
      child.values = fun q => applied (pending writesCache) cache.node.values (childKey :: q) := by
  have hwf := htree.wellFormed.childCompoundWriteAtPath [childKey]
  have hchild := FCompoundWrite.pending_childCompoundWriteAtPath htree.wellFormed [childKey]
  unfold FWriteTree.calculateCompleteChildAtPath at h
  rw [List.nil_append] at h
  cases hnode : writesCache.visibleWrites.completeNodeAtPath [childKey] with
  | some node =>
      simp only [hnode] at h
      cases h
      refine ⟨FImmutableTree.WellFormed.completeNode htree.wellFormed hnode, ?_⟩
      funext q
      symm
      apply applied_some
      rw [pending, ← htree.pending]
      exact FCompoundWrite.values_completeNode hnode q
  | none =>
      simp only [hnode] at h
      by_cases hcomplete : cache.isCompleteForChild childKey = true
      · rw [if_pos hcomplete] at h
        cases h
        refine ⟨hwf.applyToNode (hcache.child childKey), ?_⟩
        have hvalues : (cache.node.child childKey).values =
            fun r => cache.node.values ([childKey] ++ r) := rfl
        rw [FCompoundWrite.values_applyToNode hwf (hcache.child childKey), hchild, htree.pending,
          hvalues]
        funext q
        exact applied_shift [childKey] q
      · rw [if_neg hcomplete] at h
        cases h

theorem completeChild_ne_none {cache : FCacheNode} {childKey : String}
    (h : cache.isCompleteForChild childKey = true) :
    writesCache.calculateCompleteChildAtPath [] childKey cache ≠ none := by
  unfold FWriteTree.calculateCompleteChildAtPath
  simp only [h, if_true]
  split <;> simp

structure ServerChild (viewCache : FViewCache) (childKey : String) (rest : List String)
    (writesCache : FWriteTree) (r : Processed) : Prop where
  full : r.1.cachedEventSnap.isFullyInitialized = viewCache.cachedEventSnap.isFullyInitialized
  known : viewCache.cachedEventSnap.isCompleteForChild childKey = true ->
    r.1.cachedEventSnap.node.values =
      write viewCache.cachedEventSnap.node.values (childKey :: rest) (fun q =>
        applied (pending writesCache) viewCache.cachedServerSnap.node.values
          (childKey :: rest ++ q))
  missing : viewCache.cachedEventSnap.isCompleteForChild childKey = false ->
    viewCache.cachedServerSnap.isCompleteForChild childKey = true ->
      forall q, r.1.cachedEventSnap.node.values (childKey :: q) =
        applied (pending writesCache) viewCache.cachedServerSnap.node.values (childKey :: q)

/-- What a server event leaves in the event cache, by what covers its path. -/
structure ServerEvent (viewCache : FViewCache) (changePath : List String)
    (writesCache : FWriteTree) (r : Processed) : Prop extends Sound viewCache r where
  server : r.1.cachedServerSnap = viewCache.cachedServerSnap
  shadowed : pending writesCache changePath ≠ none ->
    r.1.cachedEventSnap = viewCache.cachedEventSnap
  root : pending writesCache changePath = none -> changePath = [] ->
    r.1.cachedEventSnap.isFullyInitialized = true ∧
      r.1.cachedEventSnap.node.values =
        applied (pending writesCache) viewCache.cachedServerSnap.node.values
  child : forall childKey rest, changePath = childKey :: rest ->
    ChildUpdate viewCache childKey r ∧
      (pending writesCache changePath = none ->
        ServerChild viewCache childKey rest writesCache r)

theorem serverEvent_shadowed (hvalid : viewCache.Valid) {changePath : List String}
    (h : pending writesCache changePath ≠ none) :
    ServerEvent viewCache changePath writesCache (viewCache, []) where
  toSound := sound_same hvalid
  server := rfl
  shadowed := fun _ => rfl
  root := fun hnone => absurd hnone h
  child := fun childKey _ _ => ⟨childUpdate_same _ childKey, fun hnone => absurd hnone h⟩

theorem serverEvent_child {childKey : String} {rest : List String} {r : Processed}
    (hsound : Sound viewCache r) (hserver : r.1.cachedServerSnap = viewCache.cachedServerSnap)
    (hupdate : ChildUpdate viewCache childKey r)
    (hnone : pending writesCache (childKey :: rest) = none)
    (hchild : ServerChild viewCache childKey rest writesCache r) :
    ServerEvent viewCache (childKey :: rest) writesCache r where
  toSound := hsound
  server := hserver
  shadowed := fun h => absurd hnone h
  root := fun _ h => by cases h
  child := fun _ _ h => by
    cases h
    exact ⟨hupdate, fun _ => hchild⟩

theorem fullEventCache_spec (hvalid : viewCache.Valid) (htree : writesCache.Inv)
    (hfull : viewCache.cachedServerSnap.isFullyInitialized = true) :
    exists node, writesCache.calculateCompleteEventCacheAtPath [] viewCache.completeServerSnap
        none false = some node ∧ ValidNode node ∧
      node.values = applied (pending writesCache) viewCache.cachedServerSnap.node.values := by
  have hserver : viewCache.completeServerSnap = some viewCache.cachedServerSnap.node :=
    if_pos hfull
  have hknown : forall s, some viewCache.cachedServerSnap.node = some s -> ValidNode s := by
    intro s hs
    cases hs
    exact hvalid.server
  have hspec := FWriteTree.calculateCompleteEventCache_spec htree [] hknown
  rw [hserver]
  cases hcache : writesCache.calculateCompleteEventCacheAtPath []
      (some viewCache.cachedServerSnap.node) none false with
  | none =>
      rw [hcache] at hspec
      cases hspec.left
  | some node =>
      rw [hcache] at hspec
      exact ⟨node, rfl, hspec.valid, hspec.values⟩

theorem sound_full (hvalid : viewCache.Valid) {node : FNode} (hnode : ValidNode node) :
    Sound viewCache
      ({ viewCache with cachedEventSnap := { node := node, isFullyInitialized := true } },
        fullChanges viewCache.cachedEventSnap.node node) where
  valid := ⟨hnode, hvalid.server⟩
  once := nodup_fullChanges hvalid.event hnode
  quiet := same_of_fullChanges_nil hvalid.event hnode
  loud := fullChanges_of_same hvalid.event hnode
  kept := id

theorem serverEvent_root (hvalid : viewCache.Valid) (htree : writesCache.Inv)
    (hnone : pending writesCache [] = none)
    (hfull : viewCache.cachedServerSnap.isFullyInitialized = true) :
    exists r, generateEventCacheAfterServerEvent viewCache [] writesCache = some r ∧
      ServerEvent viewCache [] writesCache r := by
  rcases fullEventCache_spec hvalid htree hfull with ⟨node, hnode, hwf, hvalues⟩
  unfold generateEventCacheAfterServerEvent
  simp only [(shadowing_eq_none_iff htree).mpr hnone, hfull, if_true, hnode, Bool.false_eq_true,
    if_false, Option.map_some]
  refine ⟨_, rfl, ?_⟩
  exact
    { toSound := sound_full hvalid hwf
      server := rfl
      shadowed := fun h => absurd hnone h
      root := fun _ _ => ⟨rfl, hvalues⟩
      child := fun _ _ h => by cases h }

theorem generateEventCache_cons (htree : writesCache.Inv) {childKey : String}
    {rest : List String} (hnone : pending writesCache (childKey :: rest) = none) :
    generateEventCacheAfterServerEvent viewCache (childKey :: rest) writesCache =
      match newEventChild viewCache childKey rest writesCache with
      | some newChild =>
          updateEventChild viewCache childKey newChild rest
            viewCache.cachedEventSnap.isFullyInitialized
      | none => some (viewCache, []) := by
  rw [generateEventCacheAfterServerEvent,
    if_neg (by simp [(shadowing_eq_none_iff htree).mpr hnone])]

theorem serverEvent_known (hvalid : viewCache.Valid) (htree : writesCache.Inv)
    {childKey : String} {rest : List String} (hpath : ValidPath (childKey :: rest))
    (hnone : pending writesCache (childKey :: rest) = none)
    (hcomplete : viewCache.cachedEventSnap.isCompleteForChild childKey = true) :
    exists r, generateEventCacheAfterServerEvent viewCache (childKey :: rest) writesCache =
        some r ∧ ServerEvent viewCache (childKey :: rest) writesCache r := by
  rcases eventChildUpdate_spec htree hvalid.server hnone with ⟨update, hupdate, hwf, hvalues⟩
  have hnew := (hvalid.event.child childKey).update hwf hpath.tail
  rcases updateEventChild_spec hvalid hpath.head hnew
    viewCache.cachedEventSnap.isFullyInitialized (settled_update hvalid.event hwf hpath) with
    ⟨r, hr, hevent⟩
  refine ⟨r, ?_, serverEvent_child hevent.toSound hevent.server hevent.toChildUpdate hnone ?_⟩
  · rw [generateEventCache_cons htree hnone, newEventChild, if_pos hcomplete, hupdate]
    exact hr
  · exact
      { full := hevent.full
        known := fun _ => by
          rw [hevent.values, write_update hvalid.event hwf hpath, hvalues]
        missing := fun hincomplete => by
          rw [hcomplete] at hincomplete
          cases hincomplete }

theorem serverEvent_missing (hvalid : viewCache.Valid) (htree : writesCache.Inv)
    {childKey : String} {rest : List String} (hpath : ValidPath (childKey :: rest))
    (hnone : pending writesCache (childKey :: rest) = none)
    (hincomplete : viewCache.cachedEventSnap.isCompleteForChild childKey = false) :
    exists r, generateEventCacheAfterServerEvent viewCache (childKey :: rest) writesCache =
        some r ∧ ServerEvent viewCache (childKey :: rest) writesCache r := by
  have hno : forall {P : Prop}, viewCache.cachedEventSnap.isCompleteForChild childKey = true -> P :=
    fun hcomplete => by
      rw [hincomplete] at hcomplete
      cases hcomplete
  cases hchild : writesCache.calculateCompleteChildAtPath [] childKey
      viewCache.cachedServerSnap with
  | none =>
      refine ⟨(viewCache, []), ?_, serverEvent_child (sound_same hvalid) rfl
        (childUpdate_same _ childKey) hnone ⟨rfl, hno, ?_⟩⟩
      · rw [generateEventCache_cons htree hnone, newEventChild, if_neg (by simp [hincomplete]),
          hchild]
      · intro _ hserver
        exact absurd hchild (completeChild_ne_none hserver)
  | some newChild =>
      rcases completeChild_spec htree hvalid.server hchild with ⟨hnew, hvalues⟩
      rcases updateEventChild_spec hvalid hpath.head hnew
        viewCache.cachedEventSnap.isFullyInitialized
        (settled_missing (isEmpty_of_incomplete hincomplete).right newChild rest) with
        ⟨r, hr, hevent⟩
      refine ⟨r, ?_, serverEvent_child hevent.toSound hevent.server hevent.toChildUpdate hnone
        ⟨hevent.full, hno, ?_⟩⟩
      · rw [generateEventCache_cons htree hnone, newEventChild, if_neg (by simp [hincomplete]),
          hchild]
        exact hr
      · intro _ _ q
        rw [hevent.below, hvalues]

theorem generateEventCache_spec (hvalid : viewCache.Valid) (htree : writesCache.Inv)
    {changePath : List String} (hpath : ValidPath changePath)
    (hroot : changePath = [] -> viewCache.cachedServerSnap.isFullyInitialized = true) :
    exists r, generateEventCacheAfterServerEvent viewCache changePath writesCache = some r ∧
      ServerEvent viewCache changePath writesCache r := by
  by_cases hnone : pending writesCache changePath = none
  · cases changePath with
    | nil => exact serverEvent_root hvalid htree hnone (hroot rfl)
    | cons childKey rest =>
        cases hcomplete : viewCache.cachedEventSnap.isCompleteForChild childKey with
        | true => exact serverEvent_known hvalid htree hpath hnone hcomplete
        | false => exact serverEvent_missing hvalid htree hpath hnone hcomplete
  · refine ⟨(viewCache, []), ?_, serverEvent_shadowed hvalid hnone⟩
    have hshadow : (writesCache.shadowingWriteAtPath changePath).isSome = true := by
      rw [← Bool.not_eq_false, shadowing_eq_none_iff htree]
      exact hnone
    unfold generateEventCacheAfterServerEvent
    exact if_pos hshadow

structure ServerUpdate (old mid : FViewCache) (changePath : List String) (changedSnap : FNode) :
    Prop where
  valid : mid.Valid
  event : mid.cachedEventSnap = old.cachedEventSnap
  values : mid.cachedServerSnap.node.values =
    write old.cachedServerSnap.node.values changePath changedSnap.values
  full : mid.cachedServerSnap.isFullyInitialized =
    (old.cachedServerSnap.isFullyInitialized || changePath.isEmpty)
  known : forall childKey rest, changePath = childKey :: rest -> rest ≠ [] ->
    old.cachedServerSnap.isCompleteForChild childKey = true

theorem ServerUpdate.sound {old mid : FViewCache} {changePath : List String} {changedSnap : FNode}
    (h : ServerUpdate old mid changePath changedSnap) {r : Processed}
    (hr : ServerEvent mid changePath writesCache r) : Sound old r where
  valid := hr.valid
  once := hr.once
  quiet := by
    rw [← h.event]
    exact hr.quiet
  loud := by
    rw [← h.event]
    exact hr.loud
  kept := by
    intro hfull
    rw [hr.server, h.full, hfull]
    rfl

theorem serverUpdate_root {old : FViewCache} (hvalid : old.Valid) {changedSnap : FNode}
    (hsnap : ValidNode changedSnap) :
    ServerUpdate old
      { old with cachedServerSnap := { node := changedSnap, isFullyInitialized := true } }
      [] changedSnap where
  valid := ⟨hvalid.event, hsnap⟩
  event := rfl
  values := by
    funext q
    exact (write_below _ [] _ q).symm
  full := by simp
  known := fun _ _ h => by cases h

theorem serverUpdate_child {old : FViewCache} (hvalid : old.Valid) {childKey : String}
    {rest : List String} (hpath : ValidPath (childKey :: rest)) {changedSnap : FNode}
    (hsnap : ValidNode changedSnap)
    (hknown : rest ≠ [] -> old.cachedServerSnap.isCompleteForChild childKey = true) :
    exists updated, updateChildIn old.cachedServerSnap.node childKey
        ((old.cachedServerSnap.node.child childKey).update rest changedSnap) rest =
          some updated ∧
      ServerUpdate old
        { old with
          cachedServerSnap :=
            { node := updated.1
              isFullyInitialized := old.cachedServerSnap.isFullyInitialized } }
        (childKey :: rest) changedSnap := by
  have hchild := (hvalid.server.child childKey).update hsnap hpath.tail
  rcases updateChildIn_total hvalid.server hchild (settled_update hvalid.server hsnap hpath) with
    ⟨updated, hupdated⟩
  have hspec := updateChildIn_spec hvalid.server hchild hpath.head hupdated
  refine ⟨updated, hupdated, ?_⟩
  exact
    { valid := ⟨hvalid.event, hspec.valid⟩
      event := rfl
      values := hspec.values.trans (write_update hvalid.server hsnap hpath)
      full := by simp
      known := fun _ _ h hrest => by
        cases h
        exact hknown hrest }

theorem applyServerOverwriteTo_spec {old : FViewCache} (hvalid : old.Valid)
    (htree : writesCache.Inv) {changePath : List String} (hpath : ValidPath changePath)
    {changedSnap : FNode} (hsnap : ValidNode changedSnap) :
    exists r, applyServerOverwriteTo old changePath changedSnap writesCache = some r ∧
      ((r = (old, []) ∧ old.cachedServerSnap.isCompleteForPath changePath = false) ∨
        exists mid, ServerUpdate old mid changePath changedSnap ∧
          ServerEvent mid changePath writesCache r) := by
  unfold applyServerOverwriteTo
  cases changePath with
  | nil =>
      have hupdate := serverUpdate_root hvalid hsnap
      rcases generateEventCache_spec hupdate.valid htree hpath (fun _ => rfl) with ⟨r, hr, hevent⟩
      exact ⟨r, hr, Or.inr ⟨_, hupdate, hevent⟩⟩
  | cons childKey rest =>
      simp only
      split
      · rename_i hforeign
        rw [Bool.and_eq_true, Bool.not_eq_true'] at hforeign
        exact ⟨_, rfl, Or.inl ⟨rfl, hforeign.left⟩⟩
      · rename_i hmeant
        have hknown : rest ≠ [] -> old.cachedServerSnap.isCompleteForChild childKey = true := by
          intro hrest
          have hlength : 0 < rest.length := List.length_pos_iff.mpr hrest
          simpa [FCacheNode.isCompleteForPath, hlength] using hmeant
        rcases serverUpdate_child hvalid hpath hsnap hknown with ⟨updated, hupdated, hupdate⟩
        rcases generateEventCache_spec hupdate.valid htree hpath (fun h => by cases h) with
          ⟨r, hr, hevent⟩
        refine ⟨r, ?_, Or.inr ⟨_, hupdate, hevent⟩⟩
        rw [hupdated, Option.bind_some]
        exact hr

theorem applyServerOverwriteTo_sound {old : FViewCache} (hvalid : old.Valid)
    (htree : writesCache.Inv) {changePath : List String} (hpath : ValidPath changePath)
    {changedSnap : FNode} (hsnap : ValidNode changedSnap) {r : Processed}
    (h : applyServerOverwriteTo old changePath changedSnap writesCache = some r) : Sound old r := by
  rcases applyServerOverwriteTo_spec hvalid htree hpath hsnap with ⟨r', hr', hcases⟩
  rw [h] at hr'
  cases hr'
  rcases hcases with ⟨rfl, _⟩ | ⟨mid, hupdate, hevent⟩
  · exact sound_same hvalid
  · exact hupdate.sound hevent

/-!
## The event cache and the pending writes
-/

/--
The event cache shows the pending writes over the server data, as soon as the
server data is there or a pending write covers the whole view.
-/
structure Agrees (viewCache : FViewCache) (P : Pending String LeafValue) : Prop where
  valid : viewCache.Valid
  shown : viewCache.cachedServerSnap.isFullyInitialized = true ∨ P [] ≠ none ->
    viewCache.cachedEventSnap.isFullyInitialized = true ∧
      viewCache.cachedEventSnap.node.values =
        applied P viewCache.cachedServerSnap.node.values

theorem visible_covered {P : Pending String LeafValue} (hP : Closed P) (hroot : P [] ≠ none)
    (d : List String -> Option LeafValue) : Visible P d := by
  intro q r hq
  exact absurd hq (hP [] q hroot)

theorem closed_pending (writesCache : FWriteTree) : Closed (pending writesCache) :=
  closed_pendingOf _

theorem Agrees.serverOverwrite {old : FViewCache} (hold : Agrees old (pending writesCache))
    (htree : writesCache.Inv) {changePath : List String} (hpath : ValidPath changePath)
    {changedSnap : FNode} (hsnap : ValidNode changedSnap)
    (hvisible : old.cachedServerSnap.isFullyInitialized = true ->
      Visible (pending writesCache) old.cachedServerSnap.node.values)
    {r : Processed}
    (h : applyServerOverwriteTo old changePath changedSnap writesCache = some r) :
    Agrees r.1 (pending writesCache) := by
  have hclosed := closed_pending writesCache
  rcases applyServerOverwriteTo_spec hold.valid htree hpath hsnap with ⟨r', hr', hcases⟩
  rw [h] at hr'
  cases hr'
  rcases hcases with ⟨rfl, _⟩ | ⟨mid, hupdate, hevent⟩
  · exact hold
  · refine ⟨hevent.valid, ?_⟩
    intro hshown
    rw [hevent.server] at hshown ⊢
    by_cases hnone : pending writesCache changePath = none
    · cases changePath with
      | nil => exact hevent.root hnone rfl
      | cons childKey rest =>
          -- the path is below the root, so the view was complete before
          have hroot : pending writesCache [] = none := hclosed.none_above (by simpa using hnone)
          rcases hshown with hfull | hcovered
          · have hfull' : old.cachedServerSnap.isFullyInitialized = true := by
              rw [hupdate.full] at hfull
              simpa using hfull
            have hbefore := hold.shown (Or.inl hfull')
            have hchild := (hevent.child childKey rest rfl).right hnone
            have hcomplete : mid.cachedEventSnap.isCompleteForChild childKey = true := by
              rw [hupdate.event]
              exact complete_of_full hbefore.left childKey
            refine ⟨hchild.full.trans ?_, ?_⟩
            · rw [hupdate.event]
              exact hbefore.left
            · rw [hchild.known hcomplete, hupdate.event, hbefore.right, hupdate.values]
              exact (applied_write_of_none hclosed (hvisible hfull') hnone).symm
          · exact absurd hroot hcovered
    · have hbefore : old.cachedServerSnap.isFullyInitialized = true ∨
          pending writesCache [] ≠ none := by
        rcases hshown with hfull | hcovered
        · rw [hupdate.full, Bool.or_eq_true, List.isEmpty_iff] at hfull
          rcases hfull with hfull | hempty
          · exact Or.inl hfull
          · rw [hempty] at hnone
            exact Or.inr hnone
        · exact Or.inr hcovered
      have hvis : Visible (pending writesCache) old.cachedServerSnap.node.values := by
        rcases hbefore with hfull | hcovered
        · exact hvisible hfull
        · exact visible_covered hclosed hcovered _
      rw [hevent.shadowed hnone, hupdate.event, hupdate.values,
        applied_write_of_some hclosed hvis hnone]
      exact hold.shown hbefore

theorem listenCompleteOldCache_spec {old : FViewCache} (hvalid : old.Valid)
    (htree : writesCache.Inv) :
    exists r, listenCompleteOldCache old writesCache = some r ∧ Sound old r ∧
      ServerEvent
        { old with
          cachedServerSnap := { old.cachedServerSnap with isFullyInitialized := true } }
        [] writesCache r := by
  have hmid : ({ old with
      cachedServerSnap :=
        { old.cachedServerSnap with isFullyInitialized := true } } : FViewCache).Valid :=
    ⟨hvalid.event, hvalid.server⟩
  have hpath : ValidPath [] := by simp [ValidPath]
  rcases generateEventCache_spec hmid htree hpath (fun _ => rfl) with ⟨r, hr, hevent⟩
  refine ⟨r, hr, ?_, hevent⟩
  exact
    { valid := hevent.valid
      once := hevent.once
      quiet := hevent.quiet
      loud := hevent.loud
      kept := fun _ => by rw [hevent.server] }

theorem Agrees.listenComplete {old : FViewCache} (hold : Agrees old (pending writesCache))
    {r : Processed}
    (h : ServerEvent
      { old with
        cachedServerSnap := { old.cachedServerSnap with isFullyInitialized := true } }
      [] writesCache r) : Agrees r.1 (pending writesCache) := by
  refine ⟨h.valid, ?_⟩
  intro _
  rw [h.server]
  by_cases hnone : pending writesCache [] = none
  · exact h.root hnone rfl
  · rw [h.shadowed hnone]
    exact hold.shown (Or.inr hnone)

/-- Without a value change, a complete event cache was complete before, with the same values. -/
theorem same_of_not_addsValue {old : FViewCache} (hvalid : old.Valid) {r : Processed}
    (h : Sound old r) (hquiet : addsValue old r.1 r.2 = false)
    (hfull : r.1.cachedEventSnap.isFullyInitialized = true) :
    old.cachedEventSnap.isFullyInitialized = true ∧
      KeyedTree.Same r.1.cachedEventSnap.node old.cachedEventSnap.node := by
  unfold addsValue at hquiet
  simp only [hfull, Bool.true_and, Bool.or_eq_false_iff, Bool.not_eq_false',
    List.isEmpty_iff] at hquiet
  rcases hquiet with ⟨⟨hnil, hbefore⟩, hequal⟩
  refine ⟨hbefore, ?_⟩
  rcases h.quiet hnil with hsame | hleaf
  · exact hsame
  · have hshape : (r.1.cachedEventSnap.node.isLeaf || r.1.cachedEventSnap.node.isEmpty) = true :=
      Bool.or_eq_true_iff.mpr hleaf
    rw [hshape, Bool.true_and, Bool.not_eq_false'] at hequal
    exact (KeyedTree.isEqual_iff h.valid.event hvalid.event).mp hequal

/-- A value change is added exactly when the values change, or are complete at last. -/
theorem addsValue_iff {old : FViewCache} (hvalid : old.Valid) {r : Processed} (h : Sound old r) :
    addsValue old r.1 r.2 = true <->
      r.1.cachedEventSnap.isFullyInitialized = true ∧
        (old.cachedEventSnap.isFullyInitialized = false ∨
          ¬ KeyedTree.Same r.1.cachedEventSnap.node old.cachedEventSnap.node) := by
  constructor
  · intro hadds
    have hfull : r.1.cachedEventSnap.isFullyInitialized = true := by
      unfold addsValue at hadds
      exact (Bool.and_eq_true_iff.mp hadds).left
    refine ⟨hfull, ?_⟩
    by_contra hcon
    rw [not_or, Bool.not_eq_false, not_not] at hcon
    have hequal := (KeyedTree.isEqual_iff h.valid.event hvalid.event).mpr hcon.right
    unfold addsValue at hadds
    simp [h.loud hcon.right, hcon.left, hequal] at hadds
  · rintro ⟨hfull, hchange⟩
    by_contra hquiet
    rw [Bool.not_eq_true] at hquiet
    rcases same_of_not_addsValue hvalid h hquiet hfull with ⟨hbefore, hsame⟩
    rcases hchange with hunready | hnot
    · rw [hunready] at hbefore
      cases hbefore
    · exact hnot hsame

/-!
## Writes of the user
-/

theorem completeChild_valid (hvalid : viewCache.Valid) (htree : writesCache.Inv)
    {optCompleteCache : Option FNode}
    (hcache : forall s, optCompleteCache = some s -> ValidNode s) {childKey : String}
    {child : FNode}
    (h : completeChild viewCache writesCache optCompleteCache childKey = some child) :
    ValidNode child := by
  unfold completeChild at h
  split at h
  · cases h
    exact hvalid.event.child childKey
  · cases optCompleteCache with
    | none => exact (completeChild_spec htree hvalid.server h).left
    | some s =>
        have hs : ValidNode (FCacheNode.mk s true).node := hcache s rfl
        exact (completeChild_spec htree hs h).left

/-- The child that a user write leaves. -/
def writtenChild (old : FViewCache) (writesCache : FWriteTree) (optCompleteCache : Option FNode)
    (childKey : String) (rest : List String) (changedSnap : FNode) : FNode :=
  match rest with
  | [] => changedSnap
  | _ :: _ =>
      match completeChild old writesCache optCompleteCache childKey with
      | some childNode => childNode.update rest changedSnap
      | none => KeyedTree.empty

theorem writtenChild_known {old : FViewCache} {optCompleteCache : Option FNode}
    {childKey : String} (hcomplete : old.cachedEventSnap.isCompleteForChild childKey = true)
    (rest : List String) (changedSnap : FNode) :
    writtenChild old writesCache optCompleteCache childKey rest changedSnap =
      (old.cachedEventSnap.node.child childKey).update rest changedSnap := by
  cases rest with
  | nil => rfl
  | cons k rest =>
      have hchild : completeChild old writesCache optCompleteCache childKey =
          some (old.cachedEventSnap.node.child childKey) := by
        unfold completeChild
        exact if_pos hcomplete
      simp only [writtenChild, hchild]

theorem writtenChild_valid {old : FViewCache} (hvalid : old.Valid) (htree : writesCache.Inv)
    {optCompleteCache : Option FNode}
    (hcache : forall s, optCompleteCache = some s -> ValidNode s) {childKey : String}
    {rest : List String} (hpath : ValidPath (childKey :: rest)) {changedSnap : FNode}
    (hsnap : ValidNode changedSnap) :
    ValidNode (writtenChild old writesCache optCompleteCache childKey rest changedSnap) := by
  cases rest with
  | nil => exact hsnap
  | cons k rest =>
      unfold writtenChild
      cases hchild : completeChild old writesCache optCompleteCache childKey with
      | none => exact validNode_empty
      | some child =>
          exact (completeChild_valid hvalid htree hcache hchild).update hsnap hpath.tail

theorem settled_written {old : FViewCache} (hvalid : old.Valid)
    {optCompleteCache : Option FNode} {childKey : String} {rest : List String}
    (hpath : ValidPath (childKey :: rest)) {changedSnap : FNode} (hsnap : ValidNode changedSnap) :
    Settled old.cachedEventSnap.node childKey
      (writtenChild old writesCache optCompleteCache childKey rest changedSnap) rest := by
  cases hcomplete : old.cachedEventSnap.isCompleteForChild childKey with
  | true =>
      rw [writtenChild_known hcomplete]
      exact settled_update hvalid.event hsnap hpath
  | false => exact settled_missing (isEmpty_of_incomplete hcomplete).right _ rest

structure UserWrite (old : FViewCache) (changePath : List String) (changedSnap : FNode)
    (writesCache : FWriteTree) (optCompleteCache : Option FNode) (r : Processed) : Prop
    extends Sound old r where
  server : r.1.cachedServerSnap = old.cachedServerSnap
  full : r.1.cachedEventSnap.isFullyInitialized =
    (old.cachedEventSnap.isFullyInitialized || changePath.isEmpty)
  root : changePath = [] -> r.1.cachedEventSnap.node.values = changedSnap.values
  child : forall childKey rest, changePath = childKey :: rest ->
    r.1.cachedEventSnap.node.values =
      write old.cachedEventSnap.node.values [childKey]
        (writtenChild old writesCache optCompleteCache childKey rest changedSnap).values

theorem UserWrite.values {old : FViewCache} (hvalid : old.Valid) {changePath : List String}
    (hpath : ValidPath changePath) {changedSnap : FNode} (hsnap : ValidNode changedSnap)
    {optCompleteCache : Option FNode} {r : Processed}
    (h : UserWrite old changePath changedSnap writesCache optCompleteCache r)
    (hcomplete : forall childKey rest, changePath = childKey :: rest ->
      old.cachedEventSnap.isCompleteForChild childKey = true) :
    r.1.cachedEventSnap.node.values =
      write old.cachedEventSnap.node.values changePath changedSnap.values := by
  cases changePath with
  | nil =>
      rw [h.root rfl]
      funext q
      exact (write_below _ [] _ q).symm
  | cons childKey rest =>
      rw [h.child childKey rest rfl, writtenChild_known (hcomplete childKey rest rfl),
        write_update hvalid.event hsnap hpath]

theorem applyUserOverwriteTo_spec {old : FViewCache} (hvalid : old.Valid)
    (htree : writesCache.Inv) {optCompleteCache : Option FNode}
    (hcache : forall s, optCompleteCache = some s -> ValidNode s) {changePath : List String}
    (hpath : ValidPath changePath) {changedSnap : FNode} (hsnap : ValidNode changedSnap) :
    exists r, applyUserOverwriteTo old changePath changedSnap writesCache optCompleteCache =
        some r ∧ UserWrite old changePath changedSnap writesCache optCompleteCache r := by
  cases changePath with
  | nil =>
      refine ⟨_, rfl, ?_⟩
      exact
        { toSound := sound_full hvalid hsnap
          server := rfl
          full := by simp
          root := fun _ => rfl
          child := fun _ _ h => by cases h }
  | cons childKey rest =>
      have hchild := writtenChild_valid hvalid htree hcache hpath hsnap
      have heq : applyUserOverwriteTo old (childKey :: rest) changedSnap writesCache
          optCompleteCache =
          if KeyedTree.isEqual (old.cachedEventSnap.node.child childKey)
              (writtenChild old writesCache optCompleteCache childKey rest changedSnap) then
            some (old, [])
          else
            updateEventChild old childKey
              (writtenChild old writesCache optCompleteCache childKey rest changedSnap) rest
              old.cachedEventSnap.isFullyInitialized := rfl
      rw [heq]
      by_cases hequal : KeyedTree.isEqual (old.cachedEventSnap.node.child childKey)
          (writtenChild old writesCache optCompleteCache childKey rest changedSnap) = true
      · have hsame := (KeyedTree.isEqual_iff (hvalid.event.child childKey) hchild).mp hequal
        rw [if_pos hequal]
        refine ⟨_, rfl, ?_⟩
        exact
          { toSound := sound_same hvalid
            server := rfl
            full := by simp
            root := fun h => by cases h
            child := fun _ _ h => by
              cases h
              exact (updated_same hvalid.event hsame).values }
      · rw [if_neg hequal]
        rcases updateEventChild_spec hvalid hpath.head hchild
          old.cachedEventSnap.isFullyInitialized (settled_written hvalid hpath hsnap) with
          ⟨r, hr, hevent⟩
        refine ⟨r, hr, ?_⟩
        exact
          { toSound := hevent.toSound
            server := hevent.server
            full := by
              rw [hevent.full]
              simp
            root := fun h => by cases h
            child := fun _ _ h => by
              cases h
              exact hevent.values }

theorem Agrees.userOverwrite {old : FViewCache} {P : Pending String LeafValue}
    (hold : Agrees old P) {changePath : List String} (hpath : ValidPath changePath)
    {changedSnap : FNode} (hsnap : ValidNode changedSnap)
    (hclear : old.cachedServerSnap.isFullyInitialized = true -> Vacant changedSnap.values ->
      Clear old.cachedServerSnap.node.values changePath)
    (hclosed : Closed P) {optCompleteCache : Option FNode} {r : Processed}
    (h : UserWrite old changePath changedSnap writesCache optCompleteCache r) :
    Agrees r.1 (add P changePath changedSnap.values) := by
  refine ⟨h.valid, ?_⟩
  intro hshown
  rw [h.server] at hshown ⊢
  cases changePath with
  | nil =>
      refine ⟨by rw [h.full]; simp, ?_⟩
      rw [h.root rfl]
      funext q
      symm
      exact applied_some (add_below P [] changedSnap.values q)
  | cons k rest =>
      have hwritten : old.cachedEventSnap.isFullyInitialized = true ->
          r.1.cachedEventSnap.node.values =
            write old.cachedEventSnap.node.values (k :: rest) changedSnap.values :=
        fun hfull => h.values hold.valid hpath hsnap fun childKey _ _ =>
          complete_of_full hfull childKey
      have hroot : P [] ≠ none -> forall q, P q = some (old.cachedEventSnap.node.values q) := by
        intro hcovered q
        have hq := hclosed [] q hcovered
        rw [List.nil_append] at hq
        rcases Option.ne_none_iff_exists'.mp hq with ⟨x, hx⟩
        rw [hx, (hold.shown (Or.inr hcovered)).right, applied_some hx]
      rcases hshown with hfull | hcovered
      · have hbefore := hold.shown (Or.inl hfull)
        refine ⟨by rw [h.full, hbefore.left]; rfl, ?_⟩
        rw [hwritten hbefore.left, hbefore.right, applied_add (hclear hfull)]
      · have hcovered' : P [] ≠ none := by
          intro hnone
          have habove := add_above P [] k rest changedSnap.values
          rw [List.nil_append, hnone] at habove
          exact hcovered habove
        have hbefore := hold.shown (Or.inr hcovered')
        refine ⟨by rw [h.full, hbefore.left]; rfl, ?_⟩
        rw [hwritten hbefore.left]
        have hP : P = fun q => some (old.cachedEventSnap.node.values q) :=
          funext (hroot hcovered')
        funext q
        symm
        apply applied_some
        conv => lhs; rw [hP, add_covered]

end FViewProcessor

end Firebase
end MyMovies
