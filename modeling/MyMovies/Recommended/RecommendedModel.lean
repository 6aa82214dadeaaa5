import MyMovies.Firebase.Database

/-!
# Decoding the shared list

`RecommendedModel.getRecommendedMovies` reads the children of `pelis` in a
snapshot of the whole database.  The order in which an `NSDictionary` is
enumerated is not specified, so results are stated up to the order of the list.
-/

namespace MyMovies
namespace Recommended

open Foundation Firebase

structure RecommendedMovie where
  title : Option String
  year : Option String
  imdb : Option String
  poster : Option String
deriving DecidableEq, Repr

/-- `peliValue?.value(forKey: field) as? String`. -/
def stringField (peliValue : Option (List (Sigma fun _ : String => FNode))) (field : String) :
    Option String :=
  (peliValue.bind fun entries => entries.dlookup field).bind asString

def recommendedFilm (peli : Sigma fun _ : String => FNode) : RecommendedMovie :=
  let peliValue := asNSDictionary peli.2
  { imdb := some peli.1
    year := stringField peliValue "year"
    title := stringField peliValue "title"
    poster := stringField peliValue "poster" }

/-- The list that the value observer builds from a snapshot. -/
def getRecommendedMovies (snapshot : FNode) : List RecommendedMovie :=
  let value := asNSDictionary snapshot
  let pelis := (value.bind fun entries => entries.dlookup "pelis").bind asNSDictionary
  match pelis with
  | none => []
  | some pelis =>
      pelis.foldl (fun recommendedMovies peli => recommendedMovies ++ [recommendedFilm peli]) []

/-!
## Reading the list child by child
-/

/-- Keys that the database accepts. -/
abbrev KeysValid : String -> Prop := fun k => isValidKey k = true

def film (imdb : String) (node : FNode) : RecommendedMovie where
  title := asString (node.child "title")
  year := asString (node.child "year")
  imdb := some imdb
  poster := asString (node.child "poster")

@[simp] theorem film_imdb (k : String) (node : FNode) : (film k node).imdb = some k := rfl

/-- Looking up a key that is not an integer never meets an array. -/
theorem asNSDictionary_dlookup {t : FNode} (ht : t.WellFormed KeysValid) {k : String}
    (hk : integerKey k = none) :
    (asNSDictionary t).bind (fun entries => entries.dlookup k) =
      if (t.child k).isEmpty then none else some (t.child k) := by
  cases t with
  | leaf v => rfl
  | node cs =>
      cases hlook : cs.dlookup k with
      | none =>
          have hempty : ((KeyedTree.node cs : FNode).child k).isEmpty = true := by
            simp [KeyedTree.child, hlook]
          rw [hempty, if_pos rfl, asNSDictionary]
          split
          · rfl
          · simpa using hlook
      | some c =>
          have hmem := List.of_mem_dlookup (Option.mem_def.mpr hlook)
          have hkeys : k ∈ cs.keys := List.mem_keys_of_mem hmem
          have hchild : (KeyedTree.node cs : FNode).child k = c := by
            simp [KeyedTree.child, hlook]
          have hc : c.isEmpty = false := by
            rw [← hchild]
            exact (KeyedTree.mem_keys_iff ht k).mp hkeys
          have hne : cs.isEmpty = false := by
            cases cs with
            | nil => cases hkeys
            | cons _ _ => rfl
          rw [hchild, hc, asNSDictionary, hne, exportsArray_eq_false_of_mem hkeys hk]
          simpa using hlook

theorem stringField_eq {node : FNode} (hnode : node.WellFormed KeysValid) {field : String}
    (hfield : integerKey field = none) :
    stringField (asNSDictionary node) field = asString (node.child field) := by
  rw [stringField, asNSDictionary_dlookup hnode hfield]
  cases hempty : (node.child field).isEmpty with
  | true =>
      rw [KeyedTree.isEmpty_iff.mp hempty]
      rfl
  | false => rfl

theorem recommendedFilm_eq {peli : Sigma fun _ : String => FNode}
    (hnode : peli.2.WellFormed KeysValid) : recommendedFilm peli = film peli.1 peli.2 := by
  simp only [recommendedFilm, film, stringField_eq hnode (by decide : integerKey "title" = none),
    stringField_eq hnode (by decide : integerKey "year" = none),
    stringField_eq hnode (by decide : integerKey "poster" = none)]

theorem foldl_append (pelis : List (Sigma fun _ : String => FNode))
    (acc : List RecommendedMovie) :
    pelis.foldl (fun movies peli => movies ++ [recommendedFilm peli]) acc =
      acc ++ pelis.map recommendedFilm := by
  induction pelis generalizing acc with
  | nil => simp
  | cons peli rest ih =>
      rw [List.foldl_cons, ih, List.map_cons]
      simp

/-- The films under the keys of a node, none when the node exports as an array. -/
def filmsOf (pelis : FNode) : List RecommendedMovie :=
  if exportsArray pelis.keys then [] else pelis.keys.map fun k => film k (pelis.child k)

theorem map_recommendedFilm {cs : List (Sigma fun _ : String => FNode)}
    (hcs : (KeyedTree.node cs : FNode).WellFormed KeysValid) :
    cs.map recommendedFilm =
      cs.keys.map fun k => film k ((KeyedTree.node cs : FNode).child k) := by
  rw [List.keys, List.map_map]
  apply List.map_congr_left
  intro peli hpeli
  cases hcs with
  | node _ hnd hvalid hne hwf =>
      have hlook : cs.dlookup peli.1 = some peli.2 :=
        Option.mem_def.mp (List.mem_dlookup hnd hpeli)
      have hchild : (KeyedTree.node cs : FNode).child peli.1 = peli.2 := by
        simp [KeyedTree.child, hlook]
      rw [Function.comp_apply, hchild]
      exact recommendedFilm_eq (hwf peli hpeli)

theorem getRecommendedMovies_eq {snapshot : FNode} (hs : snapshot.WellFormed KeysValid) :
    getRecommendedMovies snapshot = filmsOf (snapshot.child "pelis") := by
  have hpelis := hs.child "pelis"
  have hkey : integerKey "pelis" = none := by decide
  simp only [getRecommendedMovies, asNSDictionary_dlookup hs hkey]
  cases hnode : snapshot.child "pelis" with
  | leaf v => rfl
  | node cs =>
      rw [hnode] at hpelis
      cases hempty : cs.isEmpty with
      | true =>
          rw [List.isEmpty_iff.mp hempty]
          rfl
      | false =>
          have hne : (KeyedTree.node cs : FNode).isEmpty = false := hempty
          have hkeys : (KeyedTree.node cs : FNode).keys = cs.keys := rfl
          rw [hne, filmsOf, hkeys]
          simp only [Bool.false_eq_true, if_false, Option.bind_some, asNSDictionary, hempty,
            Bool.false_or]
          by_cases harray : exportsArray cs.keys = true
          · rw [if_pos harray, if_pos harray]
          · rw [if_neg harray, if_neg harray, ← map_recommendedFilm hpelis]
            exact foldl_append cs []

section Films

variable {pelis : FNode}

theorem mem_filmsOf_iff {m : RecommendedMovie} :
    m ∈ filmsOf pelis <->
      exportsArray pelis.keys = false ∧ exists k, k ∈ pelis.keys ∧ m = film k (pelis.child k) := by
  unfold filmsOf
  cases exportsArray pelis.keys with
  | true => simp
  | false => simp [eq_comm]

theorem imdb_filmsOf : (filmsOf pelis).map RecommendedMovie.imdb =
    if exportsArray pelis.keys then [] else pelis.keys.map some := by
  unfold filmsOf
  cases exportsArray pelis.keys <;> simp

theorem filter_filmsOf (hp : pelis.WellFormed KeysValid) (k : String) :
    (filmsOf pelis).filter (fun m => m.imdb == some k) =
      if exportsArray pelis.keys = false ∧ k ∈ pelis.keys then
        [film k (pelis.child k)]
      else
        [] := by
  unfold filmsOf
  cases exportsArray pelis.keys with
  | true => simp
  | false =>
      simp only [Bool.false_eq_true, if_false, true_and, List.filter_map]
      have hfun : (fun m : RecommendedMovie => m.imdb == some k) ∘
          (fun k' => film k' (pelis.child k')) = fun k' => k' == k := by
        funext k'
        simp
      rw [hfun, List.filter_beq]
      by_cases hk : k ∈ pelis.keys
      · rw [if_pos hk, List.count_eq_one_of_mem hp.nodup_keys hk]
        rfl
      · rw [if_neg hk, List.count_eq_zero_of_not_mem hk]
        rfl

end Films

end Recommended
end MyMovies
