import MyMovies.Firebase.Repo
import MyMovies.Recommended.Sharing

/-!
# Shared films before the server answers

A share queues one write after the other.  The client shows them at once, over
the data that the server has sent, so that the recommended list of an observer
is the list of the shared tree after the share, long before the tree is changed.
-/

namespace MyMovies
namespace Recommended

open Foundation Firebase Overlay View

/-!
## Lists of trees with the same values
-/

theorem asString_eq (node : FNode) :
    asString node = node.leafValue.bind fun v => asString (.leaf v) := by
  cases node <;> rfl

theorem film_of_same {node node' : FNode} (h : KeyedTree.Same node node') (k : String) :
    film k node = film k node' := by
  have hstring : forall field,
      asString (node.child field) = asString (node'.child field) := by
    intro field
    rw [asString_eq, asString_eq (node'.child field),
      (KeyedTree.same_iff.mp (h.child field)).left]
  rw [film, film, hstring, hstring, hstring]

theorem filmsOf_of_same {node node' : FNode} (hnode : node.WellFormed KeysValid)
    (hnode' : node'.WellFormed KeysValid) (h : KeyedTree.Same node node') :
    (filmsOf node).Perm (filmsOf node') := by
  have hkeys : node.keys.Perm node'.keys :=
    KeyedTree.keys_perm hnode hnode' fun k =>
      (h.child k).isEmpty (hnode.child k) (hnode'.child k)
  have hfilms : (fun k => film k (node.child k)) = fun k => film k (node'.child k) :=
    funext fun k => film_of_same (h.child k) k
  rw [filmsOf, filmsOf, exportsArray_perm hkeys, hfilms]
  split
  · exact List.Perm.refl _
  · exact hkeys.map _

/-- The values of a snapshot settle the list, up to its order. -/
theorem getRecommendedMovies_of_same {snapshot snapshot' : FNode}
    (hs : snapshot.WellFormed KeysValid) (hs' : snapshot'.WellFormed KeysValid)
    (h : KeyedTree.Same snapshot snapshot') :
    (getRecommendedMovies snapshot).Perm (getRecommendedMovies snapshot') := by
  rw [getRecommendedMovies_eq hs, getRecommendedMovies_eq hs']
  exact filmsOf_of_same (hs.child "pelis") (hs'.child "pelis") (h.child "pelis")

/-!
## A share
-/

/-- Made on trees with the same values, writes leave trees with the same values. -/
theorem setAll_same {node : FNode} (hnode : node.WellFormed KeysValid) {db : Database}
    (h : KeyedTree.Same node db.root) (records : List FWriteRecord) :
    KeyedTree.Same (FWriteTree.madeOn node records)
      (db.setAll (records.map FWriteRecord.toWrite)).root := by
  have hroot : (db.setAll (records.map FWriteRecord.toWrite)).root =
      FWriteTree.madeOn db.root records := by
    rw [Database.root_setAll, List.map_map]
    rfl
  rw [hroot]
  apply FWriteTree.madeOn_same hnode db.wellFormed
  rw [show node.values = db.root.values from h]

theorem effect_injective : Function.Injective Write.effect := by
  intro w w' h
  cases w
  cases w'
  cases h
  rfl

def matrixField (field value : String) (h : isValidKey field = true) : Write where
  path := ["pelis", "tt0133093", field]
  node := .leaf (.string value)
  valid := by
    intro k hk
    simp only [List.mem_cons, List.not_mem_nil, or_false] at hk
    rcases hk with rfl | rfl | rfl
    · decide
    · decide
    · exact h
  wellFormed := .leaf _

def matrixWrites : List Write :=
  [matrixField "title" "The Matrix" (by decide), matrixField "year" "1999" (by decide),
    matrixField "poster" "m.jpg" (by decide)]

theorem shareTapped_matrixScreen : matrixScreen.shareTapped = some matrixWrites := by
  have hsome : matrixScreen.shareTapped.isSome = true := by decide
  rcases Option.isSome_iff_exists.mp hsome with ⟨writes, hwrites⟩
  have heffects := effect_shareTapped (by decide) hwrites
  rw [hwrites]
  congr 1
  apply List.map_injective_iff.mpr effect_injective
  rw [heffects]
  rfl

end Recommended
end MyMovies
