import Mathlib.Data.List.Perm.Basic
import Mathlib.Data.String.Basic
import MyMovies.Foundation.KeyedTree

/-!
# The Firebase database tree

The vendored `FNode` classes (`FChildrenNode`, `FLeafNode`, `FEmptyNode`) are
keyed trees with pruning writes: `getImmediateChild`, `updateImmediateChild`
and `updateChild` are `child`, `setChild` and `update`.  Priorities are left
out, the application never sets one.  On top of the tree stand path parsing and
validation (`FPath`, `FValidation`), references with `child` and `setValue`,
and the way a snapshot's value looks to a cast to `NSDictionary` or `String`.
-/

namespace MyMovies
namespace Firebase

open Foundation

inductive LeafValue where
  | string (s : String)
  | number (n : Int)
  | bool (b : Bool)
deriving DecidableEq, Repr

abbrev FNode := KeyedTree String LeafValue

/-!
## Path and key validation
-/

def kInvalidPathCharacters : String := "[].#$"

def kInvalidKeyCharacters : String := "[].#$/"

def kFirebaseMaxLeafSize : Nat := 1024 * 1024 * 10

def hasNoCharacterOf (bad s : String) : Bool :=
  s.toList.all fun c => !bad.toList.contains c

def isValidPathString (pathString : String) : Bool :=
  pathString != "" && hasNoCharacterOf kInvalidPathCharacters pathString

def isValidKey (key : String) : Bool :=
  key != "" && hasNoCharacterOf kInvalidKeyCharacters key

/-- `FPath initWith:`: split at slashes and drop the empty pieces. -/
def pathPieces (path : String) : List String :=
  ((path.toList.splitOn '/').filter (· != [])).map String.ofList

theorem hasNoCharacterOf_iff {bad s : String} :
    hasNoCharacterOf bad s = true <-> forall c, c ∈ s.toList -> c ∉ bad.toList := by
  simp [hasNoCharacterOf]

theorem isValidKey_iff {key : String} :
    isValidKey key = true <->
      key ≠ "" ∧ forall c, c ∈ key.toList -> c ∉ kInvalidKeyCharacters.toList := by
  simp [isValidKey, hasNoCharacterOf_iff]

theorem isValidPathString_iff {s : String} :
    isValidPathString s = true <->
      s ≠ "" ∧ forall c, c ∈ s.toList -> c ∉ kInvalidPathCharacters.toList := by
  simp [isValidPathString, hasNoCharacterOf_iff]

theorem mem_kInvalidKeyCharacters {c : Char} :
    c ∈ kInvalidKeyCharacters.toList <->
      c ∈ kInvalidPathCharacters.toList ∨ c = '/' := by
  have hsplit : kInvalidKeyCharacters.toList =
      kInvalidPathCharacters.toList ++ ['/'] := by decide
  rw [hsplit, List.mem_append, List.mem_singleton]

theorem slash_not_mem_of_isValidKey {key : String} (h : isValidKey key = true) :
    '/' ∉ key.toList := by
  intro hmem
  exact (isValidKey_iff.mp h).right '/' hmem
    (mem_kInvalidKeyCharacters.mpr (Or.inr rfl))

theorem mem_splitOn_piece {sep : Char} {cs piece : List Char}
    (hpiece : piece ∈ cs.splitOn sep) :
    forall c, c ∈ piece -> c ∈ cs ∧ c ≠ sep := by
  induction cs generalizing piece with
  | nil =>
      rw [List.splitOn_nil, List.mem_singleton] at hpiece
      simp [hpiece]
  | cons x xs ih =>
      have htail : forall p, p ∈ xs.splitOn sep ->
          forall c, c ∈ p -> c ∈ x :: xs ∧ c ≠ sep := by
        intro p hp c hc
        exact ⟨List.mem_cons_of_mem x (ih hp c hc).left, (ih hp c hc).right⟩
      rw [List.splitOn_cons_eq_if_modifyHead] at hpiece
      by_cases hx : x = sep
      · rw [if_pos (by simpa using hx)] at hpiece
        rcases List.mem_cons.mp hpiece with rfl | hpiece
        · simp
        · exact htail piece hpiece
      · rw [if_neg (by simpa using hx)] at hpiece
        cases hsplit : xs.splitOn sep with
        | nil => exact absurd hsplit (List.splitOn_ne_nil sep xs)
        | cons p ps =>
            rw [hsplit] at htail hpiece
            rcases List.mem_cons.mp hpiece with rfl | hpiece
            · intro c hc
              rcases List.mem_cons.mp hc with rfl | hc
              · exact ⟨List.mem_cons_self, hx⟩
              · exact htail p List.mem_cons_self c hc
            · exact htail piece (List.mem_cons_of_mem p hpiece)

theorem isValidKey_of_mem_pathPieces {s k : String}
    (hs : isValidPathString s = true) (hk : k ∈ pathPieces s) :
    isValidKey k = true := by
  rcases List.mem_map.mp hk with ⟨piece, hpiece, rfl⟩
  rcases List.mem_filter.mp hpiece with ⟨hmem, hne⟩
  apply isValidKey_iff.mpr
  constructor
  · intro hempty
    have hnil : piece = [] := by simpa using congrArg String.toList hempty
    simp [hnil] at hne
  · intro c hc hbad
    rw [String.toList_ofList] at hc
    have hsource := mem_splitOn_piece hmem c hc
    rcases mem_kInvalidKeyCharacters.mp hbad with hpath | hslash
    · exact (isValidPathString_iff.mp hs).right c hsource.left hpath
    · exact hsource.right hslash

theorem pathPieces_join (a b c : String) (ha : '/' ∉ a.toList)
    (hb : '/' ∉ b.toList) (hc : '/' ∉ c.toList) :
    pathPieces (a ++ "/" ++ b ++ "/" ++ c) = [a, b, c].filter (· != "") := by
  have hjoin : (a ++ "/" ++ b ++ "/" ++ c).toList =
      ['/'].intercalate [a.toList, b.toList, c.toList] := by
    simp [List.intercalate, List.intersperse]
  have hempty : forall s : String, (s.toList != []) = (s != "") := by
    intro s
    rw [Bool.eq_iff_iff]
    simp
  unfold pathPieces
  rw [hjoin, List.splitOn_intercalate '/' (by simp [ha, hb, hc]) (by simp)]
  simp only [List.filter, hempty]
  cases (a != "") <;> cases (b != "") <;> cases (c != "") <;> simp

/-!
## References and writes
-/

/-- Keys on the path of a reference are valid: `child:` has checked them. -/
structure FIRDatabaseReference where
  path : List String
  valid : forall k, k ∈ path -> isValidKey k = true

/-- A queued `setValue`: the node that replaces the one at the path. -/
structure Write where
  path : List String
  node : FNode
  valid : forall k, k ∈ path -> isValidKey k = true
  wellFormed : node.WellFormed fun k => isValidKey k = true

def reference : FIRDatabaseReference where
  path := []
  valid := by simp

/-- `none` is the `InvalidPathValidation` exception. -/
def FIRDatabaseReference.child (ref : FIRDatabaseReference) (pathString : String) :
    Option FIRDatabaseReference :=
  if h : isValidPathString pathString = true then
    some
      { path := ref.path ++ pathPieces pathString
        valid := by
          intro k hk
          rcases List.mem_append.mp hk with hk | hk
          · exact ref.valid k hk
          · exact isValidKey_of_mem_pathPieces h hk }
  else
    none

/-- `FSnapshotUtilities nodeFrom:` on an optional string. -/
def nodeFrom : Option String -> FNode
  | none => KeyedTree.empty
  | some s => .leaf (.string s)

theorem nodeFrom_wellFormed (value : Option String) :
    (nodeFrom value).WellFormed fun k => isValidKey k = true := by
  cases value with
  | none => exact KeyedTree.wellFormed_empty _
  | some s => exact .leaf _

/-- `setValue:`; `none` is the exception for an oversized string. -/
def FIRDatabaseReference.setValue (ref : FIRDatabaseReference)
    (value : Option String) : Option Write :=
  if (value.getD "").utf8ByteSize > kFirebaseMaxLeafSize then
    none
  else
    some
      { path := ref.path
        node := nodeFrom value
        valid := ref.valid
        wellFormed := nodeFrom_wellFormed value }

structure Database where
  root : FNode
  wellFormed : root.WellFormed fun k => isValidKey k = true

/-- `FRepo set:withNode:` as the shared tree applies it. -/
def Database.set (db : Database) (w : Write) : Database where
  root := db.root.update w.path w.node
  wellFormed := db.wellFormed.update w.wellFormed w.valid

def Database.setAll (db : Database) (writes : List Write) : Database :=
  writes.foldl Database.set db

def Write.effect (w : Write) : List String × FNode := (w.path, w.node)

theorem Database.root_set (db : Database) (w : Write) :
    (db.set w).root = db.root.update w.effect.1 w.effect.2 := rfl

theorem Database.root_setAll (db : Database) (writes : List Write) :
    (db.setAll writes).root = db.root.updates (writes.map Write.effect) := by
  induction writes generalizing db with
  | nil => rfl
  | cons w rest ih => exact ih (db.set w)

def Database.empty : Database where
  root := KeyedTree.empty
  wellFormed := KeyedTree.wellFormed_empty _

/-!
## Values of snapshots

`FIRDataSnapshot.value` exports a tree with children as an `NSDictionary`,
unless all keys are integers and dense enough, in which case it becomes an
`NSArray`.  The casts below read a node directly instead of exporting it first.
-/

/-- `FUtilities intForString:`, on ASCII digits and without the clamp at the
largest `NSInteger`. -/
def intForString (s : String) : Option Nat :=
  if s.toList != [] && s.toList.all Char.isDigit then
    some (s.toList.foldl (fun n c => 10 * n + (c.toNat - '0'.toNat)) 0)
  else
    none

/-- The integer an exported key stands for; leading zeroes make it a string. -/
def integerKey (key : String) : Option Nat :=
  match key.toList with
  | '0' :: _ :: _ => none
  | _ => intForString key

def maxKey (keys : List String) : Nat :=
  (keys.map fun k => (integerKey k).getD 0).foldr max 0

/-- The test by which `valForExport:` turns children into an `NSArray`. -/
def exportsArray (keys : List String) : Bool :=
  (keys.all fun k => (integerKey k).isSome) && decide (maxKey keys < 2 * keys.length)

/-- `value as? NSDictionary`, the entries still as nodes. -/
def asNSDictionary : FNode -> Option (List (Sigma fun _ : String => FNode))
  | .leaf _ => none
  | .node cs => if cs.isEmpty || exportsArray cs.keys then none else some cs

/-- `value as? String`. -/
def asString : FNode -> Option String
  | .leaf (.string s) => some s
  | _ => none

@[simp] theorem exportsArray_nil : exportsArray [] = false := by decide

theorem asString_nodeFrom (value : Option String) :
    asString (nodeFrom value) = value := by
  cases value <;> rfl

theorem isEmpty_nodeFrom (value : Option String) :
    (nodeFrom value).isEmpty = value.isNone := by
  cases value <;> rfl

theorem exportsArray_perm {ks ks' : List String} (h : ks.Perm ks') :
    exportsArray ks = exportsArray ks' := by
  have hmax : maxKey ks = maxKey ks' := by
    unfold maxKey
    exact (h.map _).foldr_op_eq
  unfold exportsArray
  rw [h.all_eq, hmax, h.length_eq]

theorem exportsArray_eq_false_of_mem {ks : List String} {k : String}
    (hk : k ∈ ks) (hint : integerKey k = none) : exportsArray ks = false := by
  have hall : (ks.all fun k => (integerKey k).isSome) = false := by
    rw [List.all_eq_false]
    exact ⟨k, hk, by simp [hint]⟩
  simp [exportsArray, hall]

end Firebase
end MyMovies
