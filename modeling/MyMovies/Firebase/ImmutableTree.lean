import MyMovies.Foundation.TreeValues
import MyMovies.Firebase.Database

/-!
# Trees of pending writes

`FImmutableTree` keeps optional values at paths.  `FCompoundWrite` is such a
tree with nodes as values: the writes that are pending, with the writes below
an already written node merged into that node.  The pending map of the tree
says for each path what the writes leave there, and each operation of
`FCompoundWrite` is the operation of the same meaning on that map.
-/

namespace MyMovies
namespace Firebase

open Foundation Overlay

/-!
## FImmutableTree
-/

/-- Children are kept by key, as in the sorted dictionary of the source; the
order in which they are enumerated is not modelled. -/
inductive FImmutableTree (α : Type) where
  | mk (value : Option α) (children : List (Sigma fun _ : String => FImmutableTree α))

namespace FImmutableTree

variable {α : Type}

def value : FImmutableTree α -> Option α
  | .mk value _ => value

def children : FImmutableTree α -> List (Sigma fun _ : String => FImmutableTree α)
  | .mk _ children => children

def empty : FImmutableTree α := .mk none []

def initWithValue (value : α) : FImmutableTree α := .mk (some value) []

def isEmpty (tree : FImmutableTree α) : Bool :=
  tree.value.isNone && tree.children.isEmpty

/-- The value closest to the root on the way along a path, and where it stands. -/
def findRootMostValueAndPath : List String -> FImmutableTree α -> Option (List String × α)
  | [], tree => tree.value.map fun v => ([], v)
  | front :: rest, tree =>
      match tree.value with
      | some v => some ([], v)
      | none =>
          (tree.children.dlookup front).bind fun child =>
            (findRootMostValueAndPath rest child).map fun found => (front :: found.1, found.2)

def subtreeAtPath : List String -> FImmutableTree α -> FImmutableTree α
  | [], tree => tree
  | front :: rest, tree =>
      match tree.children.dlookup front with
      | some child => subtreeAtPath rest child
      | none => empty

def setValue (newValue : α) : List String -> FImmutableTree α -> FImmutableTree α
  | [], tree => .mk (some newValue) tree.children
  | front :: rest, tree =>
      let child := (tree.children.dlookup front).getD empty
      .mk tree.value (tree.children.kinsert front (setValue newValue rest child))

def setTree (newTree : FImmutableTree α) : List String -> FImmutableTree α -> FImmutableTree α
  | [], _ => newTree
  | front :: rest, tree =>
      let child := (tree.children.dlookup front).getD empty
      let newChild := setTree newTree rest child
      .mk tree.value
        (if newChild.isEmpty then tree.children.kerase front
          else tree.children.kinsert front newChild)

@[simp] theorem value_mk (value : Option α)
    (children : List (Sigma fun _ : String => FImmutableTree α)) :
    (FImmutableTree.mk value children).value = value := rfl

@[simp] theorem children_mk (value : Option α)
    (children : List (Sigma fun _ : String => FImmutableTree α)) :
    (FImmutableTree.mk value children).children = children := rfl

theorem isEmpty_iff {tree : FImmutableTree α} : tree.isEmpty = true <-> tree = empty := by
  cases tree with
  | mk value children => cases value <;> simp [isEmpty, empty]

theorem setTree_isEmpty {newTree : FImmutableTree α} (hne : newTree.isEmpty = false)
    (path : List String) (tree : FImmutableTree α) :
    (setTree newTree path tree).isEmpty = false := by
  induction path generalizing tree with
  | nil => exact hne
  | cons front rest ih =>
      rw [setTree, isEmpty, children_mk, ih]
      simp [List.kinsert]

end FImmutableTree

/-!
## FCompoundWrite
-/

namespace FPath

def contains (path other : List String) : Bool := path.isPrefixOf other

/-- `relativePathFrom:to:` raises when `inner` is not within `outer`; every
caller below passes a path that is, and what is left of `inner` stands for the
exception. -/
def relativePathFrom : List String -> List String -> List String
  | [], inner => inner
  | _ :: outer, inner => relativePathFrom outer inner.tail

theorem contains_iff {path other : List String} :
    contains path other = true <-> path <+: other :=
  List.isPrefixOf_iff_prefix

theorem relativePathFrom_append (outer rest : List String) :
    relativePathFrom outer (outer ++ rest) = rest := by
  induction outer with
  | nil => rfl
  | cons front outer ih => exact ih

end FPath

structure FCompoundWrite where
  writeTree : FImmutableTree FNode

namespace FCompoundWrite

open FImmutableTree

def emptyWrite : FCompoundWrite where
  writeTree := FImmutableTree.empty

def addWrite (w : FCompoundWrite) (node : FNode) (path : List String) : FCompoundWrite :=
  match path with
  | [] => { writeTree := initWithValue node }
  | _ :: _ =>
      match w.writeTree.findRootMostValueAndPath path with
      | some rootMost =>
          let value := rootMost.2.update (FPath.relativePathFrom rootMost.1 path) node
          { writeTree := setValue value rootMost.1 w.writeTree }
      | none => { writeTree := setTree (initWithValue node) path w.writeTree }

def removeWriteAtPath (w : FCompoundWrite) (path : List String) : FCompoundWrite :=
  match path with
  | [] => emptyWrite
  | _ :: _ => { writeTree := setTree FImmutableTree.empty path w.writeTree }

def completeNodeAtPath (w : FCompoundWrite) (path : List String) : Option FNode :=
  (w.writeTree.findRootMostValueAndPath path).map fun rootMost =>
    rootMost.2.descend (FPath.relativePathFrom rootMost.1 path)

def hasCompleteWriteAtPath (w : FCompoundWrite) (path : List String) : Bool :=
  (w.completeNodeAtPath path).isSome

def childCompoundWriteAtPath (w : FCompoundWrite) (path : List String) : FCompoundWrite :=
  match path with
  | [] => w
  | _ :: _ =>
      match w.completeNodeAtPath path with
      | some shadowingNode => { writeTree := initWithValue shadowingNode }
      | none => { writeTree := subtreeAtPath path w.writeTree }

/-- The children that are written as a whole. -/
def completeChildren (w : FCompoundWrite) : List (String × FNode) :=
  match w.writeTree.value with
  | some (.leaf _) => []
  | some (.node cs) => cs.map fun c => (c.1, c.2)
  | none => w.writeTree.children.filterMap fun c => c.2.value.map fun node => (c.1, node)

def childCompoundWrites (w : FCompoundWrite) : List (String × FCompoundWrite) :=
  w.writeTree.children.map fun c => (c.1, { writeTree := c.2 })

def rootWrite (w : FCompoundWrite) : Option FNode := w.writeTree.value

def isEmpty (w : FCompoundWrite) : Bool := w.writeTree.isEmpty

mutual

def applySubtreeWrite : FImmutableTree FNode -> List String -> FNode -> FNode
  | .mk (some value) _, relativePath, node => node.update relativePath value
  | .mk none children, relativePath, node => applyChildWrites children relativePath node

def applyChildWrites :
    List (Sigma fun _ : String => FImmutableTree FNode) -> List String -> FNode -> FNode
  | [], _, node => node
  | ⟨childKey, childTree⟩ :: rest, relativePath, node =>
      applyChildWrites rest relativePath
        (applySubtreeWrite childTree (relativePath ++ [childKey]) node)

end

def applyToNode (w : FCompoundWrite) (node : FNode) : FNode :=
  applySubtreeWrite w.writeTree [] node

end FCompoundWrite

/-!
## What the writes of a tree leave at each path
-/

namespace FImmutableTree

/-- Written nodes have nothing below them, all keys are valid and distinct. -/
inductive WellFormed : FImmutableTree FNode -> Prop where
  | value (node : FNode) :
      (node.WellFormed fun k => isValidKey k = true) -> WellFormed (.mk (some node) [])
  | children (cs : List (Sigma fun _ : String => FImmutableTree FNode)) :
      cs.NodupKeys ->
      (forall c, c ∈ cs -> isValidKey c.1 = true) ->
      (forall c, c ∈ cs -> WellFormed c.2) ->
      WellFormed (.mk none cs)

def pending (tree : FImmutableTree FNode) (path : List String) : Option (Option LeafValue) :=
  (FCompoundWrite.completeNodeAtPath ⟨tree⟩ path).map KeyedTree.leafValue

theorem completeNode_value (node : FNode)
    (cs : List (Sigma fun _ : String => FImmutableTree FNode)) (path : List String) :
    FCompoundWrite.completeNodeAtPath ⟨.mk (some node) cs⟩ path = some (node.descend path) := by
  cases path <;> rfl

theorem completeNode_cons (cs : List (Sigma fun _ : String => FImmutableTree FNode))
    (front : String) (rest : List String) :
    FCompoundWrite.completeNodeAtPath ⟨.mk none cs⟩ (front :: rest) =
      (cs.dlookup front).bind fun child => FCompoundWrite.completeNodeAtPath ⟨child⟩ rest := by
  rw [FCompoundWrite.completeNodeAtPath, findRootMostValueAndPath]
  simp only [value_mk, children_mk]
  cases cs.dlookup front with
  | none => rfl
  | some child =>
      simp only [Option.bind_some, FCompoundWrite.completeNodeAtPath, Option.map_map]
      rfl

theorem pending_value (node : FNode)
    (cs : List (Sigma fun _ : String => FImmutableTree FNode)) :
    pending (.mk (some node) cs) = fun path => some (node.values path) := by
  funext path
  rw [pending, completeNode_value]
  rfl

theorem pending_nil (cs : List (Sigma fun _ : String => FImmutableTree FNode)) :
    pending (.mk none cs) [] = none := rfl

theorem pending_empty : pending empty = fun _ => none := by
  funext path
  cases path with
  | nil => rfl
  | cons front rest => rw [pending, empty, completeNode_cons]; rfl

theorem pending_cons (cs : List (Sigma fun _ : String => FImmutableTree FNode))
    (front : String) (rest : List String) :
    pending (.mk none cs) (front :: rest) = pending ((cs.dlookup front).getD empty) rest := by
  rw [pending, completeNode_cons]
  cases cs.dlookup front with
  | none => rw [Option.getD_none, pending_empty]; rfl
  | some child => rfl

theorem completeNode_append {tree : FImmutableTree FNode} {path : List String} {node : FNode}
    (h : FCompoundWrite.completeNodeAtPath ⟨tree⟩ path = some node) (rest : List String) :
    FCompoundWrite.completeNodeAtPath ⟨tree⟩ (path ++ rest) = some (node.descend rest) := by
  induction path generalizing tree with
  | nil =>
      cases tree with
      | mk value cs =>
          cases value with
          | none => cases h
          | some v =>
              rw [completeNode_value] at h
              cases h
              exact completeNode_value _ cs rest
  | cons front path ih =>
      cases tree with
      | mk value cs =>
          cases value with
          | some v =>
              rw [completeNode_value] at h
              cases h
              rw [completeNode_value, KeyedTree.descend_append]
          | none =>
              rw [List.cons_append, completeNode_cons]
              rw [completeNode_cons] at h
              rcases Option.bind_eq_some_iff.mp h with ⟨child, hchild, hnode⟩
              rw [hchild]
              exact ih hnode

theorem pending_of_completeNode {tree : FImmutableTree FNode} {path : List String} {node : FNode}
    (h : FCompoundWrite.completeNodeAtPath ⟨tree⟩ path = some node) (rest : List String) :
    pending tree (path ++ rest) = some (node.values rest) := by
  rw [pending, completeNode_append h]
  rfl

theorem pending_eq_none_iff {tree : FImmutableTree FNode} {path : List String} :
    pending tree path = none <-> FCompoundWrite.completeNodeAtPath ⟨tree⟩ path = none := by
  rw [pending, Option.map_eq_none_iff]

theorem closed_pending (tree : FImmutableTree FNode) : Closed (pending tree) := by
  intro q r hq
  cases hnode : FCompoundWrite.completeNodeAtPath ⟨tree⟩ q with
  | none => exact absurd (pending_eq_none_iff.mpr hnode) hq
  | some node =>
      rw [pending_of_completeNode hnode]
      simp

theorem wellFormed_empty : WellFormed empty :=
  .children [] List.nodupKeys_nil (by simp) (by simp)

theorem WellFormed.getD {cs : List (Sigma fun _ : String => FImmutableTree FNode)}
    (h : forall c, c ∈ cs -> WellFormed c.2) (front : String) :
    WellFormed ((cs.dlookup front).getD FImmutableTree.empty) := by
  cases hlook : cs.dlookup front with
  | none => exact wellFormed_empty
  | some child => exact h _ (List.of_mem_dlookup (Option.mem_def.mpr hlook))

theorem WellFormed.completeNode {tree : FImmutableTree FNode} (h : WellFormed tree)
    {path : List String} {node : FNode}
    (hnode : FCompoundWrite.completeNodeAtPath ⟨tree⟩ path = some node) :
    node.WellFormed fun k => isValidKey k = true := by
  induction path generalizing tree with
  | nil =>
      cases h with
      | value v hv =>
          rw [completeNode_value] at hnode
          cases hnode
          exact hv
      | children cs hnd hvalid hwf => cases hnode
  | cons front path ih =>
      cases h with
      | value v hv =>
          rw [completeNode_value] at hnode
          cases hnode
          exact hv.descend (front :: path)
      | children cs hnd hvalid hwf =>
          rw [completeNode_cons] at hnode
          rcases Option.bind_eq_some_iff.mp hnode with ⟨child, hchild, hrest⟩
          exact ih (hwf _ (List.of_mem_dlookup (Option.mem_def.mpr hchild))) hrest

end FImmutableTree

end Firebase
end MyMovies
