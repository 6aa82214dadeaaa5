import MyMovies.Recommended.RecommendedModel
import MyMovies.View.MovieDetailController

/-!
# Sharing a movie and reading the list back

`shareTapped` writes three fields below `pelis/<imdbID>`, whether or not a
response has arrived, and writes them directly below `pelis` when the screen was
opened with an empty `imdbID`.  A field without a value is a deletion.  This
module relates the writes to the list that `getRecommendedMovies` decodes.
-/

namespace MyMovies
namespace Recommended

open Foundation Firebase Network View

/-!
## The writes of a share
-/

/-- The fields that a share publishes, with their values. -/
def published (c : MovieDetailController) : List (String × Option String) :=
  [("title", c.movieDetailDto.bind MovieDetailDto.title),
    ("year", c.movieDetailDto.bind MovieDetailDto.year),
    ("poster", c.movieDetailDto.bind MovieDetailDto.poster)]

def fieldNodes (c : MovieDetailController) : List (String × FNode) :=
  (published c).map fun p => (p.1, nodeFrom p.2)

/-- Where a share writes below `pelis`. -/
def shareWrites (c : MovieDetailController) : List (List String × FNode) :=
  if c.imdbID = "" then
    KeyedTree.direct (fieldNodes c)
  else
    KeyedTree.under c.imdbID (KeyedTree.direct (fieldNodes c))

/-- The database after a share, when `shareTapped` raises no exception. -/
def share (db : Database) (c : MovieDetailController) : Option Database :=
  c.shareTapped.map db.setAll

theorem title_mem_published (c : MovieDetailController) :
    ("title", c.movieDetailDto.bind MovieDetailDto.title) ∈ published c := by
  simp [published]

theorem year_mem_published (c : MovieDetailController) :
    ("year", c.movieDetailDto.bind MovieDetailDto.year) ∈ published c := by
  simp [published]

theorem poster_mem_published (c : MovieDetailController) :
    ("poster", c.movieDetailDto.bind MovieDetailDto.poster) ∈ published c := by
  simp [published]

theorem fields_published (c : MovieDetailController) :
    (published c).map Prod.fst = ["title", "year", "poster"] := rfl

theorem fields_fieldNodes (c : MovieDetailController) :
    (fieldNodes c).map Prod.fst = ["title", "year", "poster"] := rfl

theorem integerKey_of_field {field : String} (h : field ∈ ["title", "year", "poster"]) :
    integerKey field = none ∧ isValidKey field = true := by
  revert field
  decide

theorem effect_shareField {imdbID field : String} {value : Option String} {w : Write}
    (himdb : '/' ∉ imdbID.toList) (hfield : field ∈ ["title", "year", "poster"])
    (h : MovieDetailController.shareField imdbID field value = some w) :
    w.effect =
      (if imdbID = "" then ["pelis", field] else ["pelis", imdbID, field], nodeFrom value) := by
  have hslash : '/' ∉ field.toList :=
    slash_not_mem_of_isValidKey (integerKey_of_field hfield).right
  have hne : field ≠ "" := (isValidKey_iff.mp (integerKey_of_field hfield).right).left
  rcases Option.bind_eq_some_iff.mp h with ⟨ref, href, hset⟩
  have hpath : ref.path = pathPieces ("pelis/" ++ imdbID ++ "/" ++ field) := by
    unfold FIRDatabaseReference.child at href
    split at href
    · cases href
      rfl
    · cases href
  have hpieces : pathPieces ("pelis/" ++ imdbID ++ "/" ++ field) =
      ["pelis", imdbID, field].filter (· != "") :=
    pathPieces_join "pelis" imdbID field (by decide) himdb hslash
  unfold FIRDatabaseReference.setValue at hset
  split at hset
  · cases hset
  · cases hset
    show (ref.path, nodeFrom value) = _
    rw [hpath, hpieces]
    by_cases hempty : imdbID = ""
    · simp [hempty, hne]
    · simp [hempty, hne]

theorem effect_shareTapped {c : MovieDetailController} {writes : List Write}
    (himdb : '/' ∉ c.imdbID.toList) (h : c.shareTapped = some writes) :
    writes.map Write.effect = KeyedTree.under "pelis" (shareWrites c) := by
  simp only [MovieDetailController.shareTapped, Option.bind_eq_bind, Option.pure_def] at h
  rcases Option.bind_eq_some_iff.mp h with ⟨title, htitle, h⟩
  rcases Option.bind_eq_some_iff.mp h with ⟨year, hyear, h⟩
  rcases Option.bind_eq_some_iff.mp h with ⟨poster, hposter, h⟩
  cases h
  simp only [List.map_cons, List.map_nil, effect_shareField himdb (by decide) htitle,
    effect_shareField himdb (by decide) hyear, effect_shareField himdb (by decide) hposter]
  by_cases hempty : c.imdbID = ""
  · simp [shareWrites, hempty, KeyedTree.under, KeyedTree.direct, fieldNodes, published]
  · simp [shareWrites, hempty, KeyedTree.under, KeyedTree.direct, fieldNodes, published]

/-!
## The tree after a share
-/

/-- The `imdbID`s that a list screen hands to the detail screen. -/
def FromList (imdbID : String) : Prop := isValidKey imdbID = true ∨ imdbID = ""

theorem slash_not_mem_of_fromList {imdbID : String} (h : FromList imdbID) :
    '/' ∉ imdbID.toList := by
  rcases h with h | h
  · exact slash_not_mem_of_isValidKey h
  · rw [h]
    decide

theorem validWrites_direct (c : MovieDetailController) :
    KeyedTree.ValidWrites KeysValid (KeyedTree.direct (fieldNodes c)) := by
  intro w hw
  rcases List.mem_map.mp hw with ⟨f, hf, rfl⟩
  rcases List.mem_map.mp hf with ⟨p, hp, rfl⟩
  refine ⟨?_, nodeFrom_wellFormed p.2⟩
  intro k hk
  rw [List.mem_singleton.mp hk]
  exact (integerKey_of_field (List.mem_map_of_mem (f := Prod.fst) hp)).right

theorem validWrites_share {c : MovieDetailController} (h : FromList c.imdbID) :
    KeyedTree.ValidWrites KeysValid (shareWrites c) := by
  unfold shareWrites
  by_cases hempty : c.imdbID = ""
  · rw [if_pos hempty]
    exact validWrites_direct c
  · rw [if_neg hempty]
    exact (validWrites_direct c).under (h.resolve_right hempty)

def pelis (db : Database) : FNode := db.root.child "pelis"

theorem pelis_wellFormed (db : Database) : (pelis db).WellFormed KeysValid :=
  db.wellFormed.child "pelis"

theorem pelis_share {db db' : Database} {c : MovieDetailController} (hid : FromList c.imdbID)
    (h : share db c = some db') : pelis db' = (pelis db).updates (shareWrites c) := by
  rcases Option.map_eq_some_iff.mp h with ⟨writes, hwrites, rfl⟩
  rw [pelis, Database.root_setAll,
    effect_shareTapped (slash_not_mem_of_fromList hid) hwrites]
  exact KeyedTree.child_updates_under_self db.wellFormed (by decide) (validWrites_share hid)

theorem list_eq (db : Database) : getRecommendedMovies db.root = filmsOf (pelis db) :=
  getRecommendedMovies_eq db.wellFormed

def withFields (node : FNode) (c : MovieDetailController) : FNode :=
  node.updates (KeyedTree.direct (fieldNodes c))

theorem withFields_wellFormed {node : FNode} (hn : node.WellFormed KeysValid)
    (c : MovieDetailController) : (withFields node c).WellFormed KeysValid :=
  hn.updates (validWrites_direct c)

theorem child_withFields {node : FNode} (hn : node.WellFormed KeysValid)
    {c : MovieDetailController} {field : String} {value : Option String}
    (h : (field, value) ∈ published c) :
    (withFields node c).child field = nodeFrom value :=
  KeyedTree.child_updates_direct_of_mem hn (validWrites_direct c)
    (by rw [fields_fieldNodes]; decide) (List.mem_map_of_mem h)

theorem child_withFields_of_not_mem (node : FNode) (c : MovieDetailController) {field : String}
    (h : field ∉ ["title", "year", "poster"]) :
    (withFields node c).child field = node.child field :=
  KeyedTree.child_updates_direct_of_not_mem (by rwa [fields_fieldNodes])

/-- A child is a field of the share or the child from before. -/
theorem child_withFields_cases {node : FNode} (hn : node.WellFormed KeysValid)
    (c : MovieDetailController) (k : String) :
    (exists value, (k, value) ∈ published c ∧
      (withFields node c).child k = nodeFrom value) ∨
    (k ∉ ["title", "year", "poster"] ∧ (withFields node c).child k = node.child k) := by
  by_cases hin : k ∈ ["title", "year", "poster"]
  · rw [← fields_published c] at hin
    rcases List.mem_map.mp hin with ⟨⟨field, value⟩, hp, rfl⟩
    exact Or.inl ⟨value, hp, child_withFields hn hp⟩
  · exact Or.inr ⟨hin, child_withFields_of_not_mem node c hin⟩

/-!
## The upsert law
-/

/-- The list after a share is the list before it with the movie put in. -/
structure UpsertsExactly (before after : List RecommendedMovie) (c : MovieDetailController) :
    Prop where
  keeps : forall m, m ∈ before -> exists m', m' ∈ after ∧ m'.imdb = m.imdb
  publishes : forall dto, c.movieDetailDto = some dto ->
    (dto.title ≠ none ∨ dto.year ≠ none ∨ dto.poster ≠ none) -> isValidKey c.imdbID = true ->
      after.filter (fun m => m.imdb == some c.imdbID) =
        [{ title := dto.title, year := dto.year, imdb := some c.imdbID, poster := dto.poster }]
  frame : (after.filter fun m => m.imdb != some c.imdbID).Perm
    (before.filter fun m => m.imdb != some c.imdbID)

def Publishes (c : MovieDetailController) : Prop :=
  exists field value, (field, some value) ∈ published c

/-- A node with nothing in it but fields of a share. -/
def OnlyFields (node : FNode) : Prop :=
  node.isLeaf = false ∧ forall k, k ∈ node.keys -> k ∈ ["title", "year", "poster"]

/--
The condition for an exact upsert, on the screen and the node under `pelis`.

- With a value to publish: neither the old nor the new set of keys makes the
  children of `pelis` an array.
- With nothing to publish: the node of the movie is not one that the deletions
  empty, unless no list showed anything before and after.
- With an empty `imdbID`: each field written directly below `pelis` leaves the
  entry of that name as it was.
-/
def ShareIsSafe (node : FNode) (c : MovieDetailController) : Prop :=
  (c.imdbID ≠ "" -> Publishes c ->
    exportsArray node.keys = false ∧
      exportsArray (c.imdbID :: node.keys.erase c.imdbID) = false) ∧
  (c.imdbID ≠ "" -> ¬ Publishes c ->
    (node.child c.imdbID).isEmpty = true ∨ ¬ OnlyFields (node.child c.imdbID) ∨
      exportsArray node.keys = true ∧
        (node.keys.erase c.imdbID = [] ∨ exportsArray (node.keys.erase c.imdbID) = true)) ∧
  (c.imdbID = "" -> forall field value, (field, value) ∈ published c ->
    (value = none -> (node.child field).isEmpty = true) ∧
    (value ≠ none -> (node.child field).isEmpty = false ∧
      film field (node.child field) =
        { title := none, year := none, imdb := some field, poster := none }))

/-!
### Lists of nodes that differ under one key
-/

section OneKey

variable {node node' : FNode} {imdbID : String}

theorem nodup_filmsOf (hn : node.WellFormed KeysValid) : (filmsOf node).Nodup := by
  apply List.Nodup.of_map RecommendedMovie.imdb
  rw [imdb_filmsOf]
  split
  · exact List.nodup_nil
  · exact hn.nodup_keys.map fun _ _ h => Option.some.inj h

theorem mem_filter_filmsOf_iff {m : RecommendedMovie} :
    m ∈ (filmsOf node).filter (fun m => m.imdb != some imdbID) <->
      exportsArray node.keys = false ∧
        exists k, k ∈ node.keys ∧ k ≠ imdbID ∧ m = film k (node.child k) := by
  rw [List.mem_filter, mem_filmsOf_iff]
  constructor
  · intro hmem
    rcases hmem with ⟨⟨harray, k, hk, rfl⟩, hne⟩
    exact ⟨harray, k, hk, by simpa using hne, rfl⟩
  · intro hfilm
    rcases hfilm with ⟨harray, k, hk, hne, rfl⟩
    exact ⟨⟨harray, k, hk, rfl⟩, by simpa using hne⟩

/-- Both lists show the other movies alike when both are lists or there is no other. -/
theorem filter_perm_iff (hn : node.WellFormed KeysValid) (hn' : node'.WellFormed KeysValid)
    (hother : forall k, k ≠ imdbID -> node'.child k = node.child k) :
    ((filmsOf node').filter fun m => m.imdb != some imdbID).Perm
        ((filmsOf node).filter fun m => m.imdb != some imdbID) <->
      (exists k, k ∈ node.keys ∧ k ≠ imdbID) ->
        exportsArray node'.keys = exportsArray node.keys := by
  have hkeys : forall k, k ≠ imdbID -> (k ∈ node'.keys <-> k ∈ node.keys) := by
    intro k hk
    rw [KeyedTree.mem_keys_iff hn', KeyedTree.mem_keys_iff hn, hother k hk]
  rw [List.perm_ext_iff_of_nodup ((nodup_filmsOf hn').filter _) ((nodup_filmsOf hn).filter _)]
  constructor
  · intro hmem hany
    rcases hany with ⟨k, hk, hne⟩
    have hfilm := hmem (film k (node.child k))
    rw [mem_filter_filmsOf_iff, mem_filter_filmsOf_iff] at hfilm
    have hin : exists k', k' ∈ node.keys ∧ k' ≠ imdbID ∧
        film k (node.child k) = film k' (node.child k') := ⟨k, hk, hne, rfl⟩
    have hin' : exists k', k' ∈ node'.keys ∧ k' ≠ imdbID ∧
        film k (node.child k) = film k' (node'.child k') :=
      ⟨k, (hkeys k hne).mpr hk, hne, by rw [hother k hne]⟩
    rw [and_iff_left hin, and_iff_left hin'] at hfilm
    cases harray : exportsArray node.keys with
    | false => exact hfilm.mpr harray
    | true =>
        cases harray' : exportsArray node'.keys with
        | true => rfl
        | false =>
            rw [hfilm.mp harray'] at harray
            cases harray
  · intro harray m
    rw [mem_filter_filmsOf_iff, mem_filter_filmsOf_iff]
    constructor
    · intro hshown
      rcases hshown with ⟨hlist, k, hk, hne, rfl⟩
      have hk' := (hkeys k hne).mp hk
      exact ⟨(harray ⟨k, hk', hne⟩).symm.trans hlist, k, hk', hne, by rw [hother k hne]⟩
    · intro hshown
      rcases hshown with ⟨hlist, k, hk, hne, rfl⟩
      exact ⟨(harray ⟨k, hk, hne⟩).trans hlist, k, (hkeys k hne).mpr hk, hne,
        by rw [hother k hne]⟩

theorem keeps_iff : (forall m, m ∈ filmsOf node -> exists m', m' ∈ filmsOf node' ∧
      m'.imdb = m.imdb) <->
    exportsArray node.keys = false ->
      forall k, k ∈ node.keys -> exportsArray node'.keys = false ∧ k ∈ node'.keys := by
  constructor
  · intro hkeeps harray k hk
    rcases hkeeps (film k (node.child k)) (mem_filmsOf_iff.mpr ⟨harray, k, hk, rfl⟩) with
      ⟨m', hm', himdb⟩
    rcases mem_filmsOf_iff.mp hm' with ⟨harray', k', hk', rfl⟩
    rw [film_imdb, film_imdb] at himdb
    cases himdb
    exact ⟨harray', hk'⟩
  · intro hkeys m hm
    rcases mem_filmsOf_iff.mp hm with ⟨harray, k, hk, rfl⟩
    rcases hkeys harray k hk with ⟨harray', hk'⟩
    exact ⟨_, mem_filmsOf_iff.mpr ⟨harray', k, hk', rfl⟩, rfl⟩

theorem keys_perm_of_nonempty (hn : node.WellFormed KeysValid)
    (hn' : node'.WellFormed KeysValid)
    (hother : forall k, k ≠ imdbID -> node'.child k = node.child k)
    (hfull : (node'.child imdbID).isEmpty = false) :
    node'.keys.Perm (imdbID :: node.keys.erase imdbID) := by
  have hnodup : (imdbID :: node.keys.erase imdbID).Nodup :=
    List.nodup_cons.mpr ⟨hn.nodup_keys.not_mem_erase, hn.nodup_keys.erase _⟩
  apply (List.perm_ext_iff_of_nodup hn'.nodup_keys hnodup).mpr
  intro k
  rw [List.mem_cons, hn.nodup_keys.mem_erase_iff]
  by_cases hk : k = imdbID
  · rw [hk]
    exact iff_of_true ((KeyedTree.mem_keys_iff hn' imdbID).mpr hfull) (Or.inl rfl)
  · rw [KeyedTree.mem_keys_iff hn', hother k hk, ← KeyedTree.mem_keys_iff hn]
    simp [hk]

theorem keys_perm_of_empty (hn : node.WellFormed KeysValid)
    (hn' : node'.WellFormed KeysValid)
    (hother : forall k, k ≠ imdbID -> node'.child k = node.child k)
    (hgone : (node'.child imdbID).isEmpty = true) :
    node'.keys.Perm (node.keys.erase imdbID) := by
  apply (List.perm_ext_iff_of_nodup hn'.nodup_keys (hn.nodup_keys.erase _)).mpr
  intro k
  rw [hn.nodup_keys.mem_erase_iff]
  by_cases hk : k = imdbID
  · rw [hk, KeyedTree.mem_keys_iff hn', hgone]
    simp
  · rw [KeyedTree.mem_keys_iff hn', hother k hk, ← KeyedTree.mem_keys_iff hn]
    simp [hk]

theorem keys_perm_of_kept (hn : node.WellFormed KeysValid) (hn' : node'.WellFormed KeysValid)
    (hother : forall k, k ≠ imdbID -> node'.child k = node.child k)
    (hkept : (node'.child imdbID).isEmpty = (node.child imdbID).isEmpty) :
    node'.keys.Perm node.keys := by
  apply KeyedTree.keys_perm hn' hn
  intro k
  by_cases hk : k = imdbID
  · rw [hk]
    exact hkept
  · rw [hother k hk]

theorem erase_eq_nil_iff {keys : List String} (hkeys : keys.Nodup) :
    keys.erase imdbID = [] <-> ¬ exists k, k ∈ keys ∧ k ≠ imdbID := by
  rw [List.eq_nil_iff_forall_not_mem]
  simp only [hkeys.mem_erase_iff, not_exists, not_and]
  exact forall_congr' fun k => ⟨fun h hk hne => h hne hk, fun h hne hk => h hk hne⟩

/-- Keys without another movie are those with the movie put in, or none. -/
theorem exportsArray_of_no_other {keys : List String}
    (hother : ¬ exists k, k ∈ keys ∧ k ≠ imdbID)
    (harray : exportsArray (imdbID :: keys.erase imdbID) = false) :
    exportsArray keys = false := by
  cases keys with
  | nil => exact exportsArray_nil
  | cons k rest =>
      have hk : k = imdbID := by
        by_contra hne
        exact hother ⟨k, List.mem_cons_self, hne⟩
      rw [hk, List.erase_cons_head] at harray
      rw [hk]
      exact harray

end OneKey

/-!
### The three cases of a share
-/

theorem publishes_iff (c : MovieDetailController) :
    Publishes c <-> exists dto, c.movieDetailDto = some dto ∧
      (dto.title ≠ none ∨ dto.year ≠ none ∨ dto.poster ≠ none) := by
  unfold Publishes published
  cases c.movieDetailDto with
  | none => simp
  | some dto =>
      simp only [Option.bind_some, List.mem_cons, Prod.mk.injEq, List.not_mem_nil, or_false,
        Option.some.injEq, exists_eq_left', Option.ne_none_iff_exists']
      constructor
      · intro hpublishes
        rcases hpublishes with ⟨field, value, ⟨_, h⟩ | ⟨_, h⟩ | ⟨_, h⟩⟩
        · exact Or.inl ⟨value, h.symm⟩
        · exact Or.inr (Or.inl ⟨value, h.symm⟩)
        · exact Or.inr (Or.inr ⟨value, h.symm⟩)
      · intro hcases
        rcases hcases with ⟨value, h⟩ | ⟨value, h⟩ | ⟨value, h⟩
        · exact ⟨"title", value, Or.inl ⟨rfl, h.symm⟩⟩
        · exact ⟨"year", value, Or.inr (Or.inl ⟨rfl, h.symm⟩)⟩
        · exact ⟨"poster", value, Or.inr (Or.inr ⟨rfl, h.symm⟩)⟩

theorem film_withFields {node : FNode} (hn : node.WellFormed KeysValid)
    (c : MovieDetailController) (imdbID : String) :
    film imdbID (withFields node c) =
      { title := c.movieDetailDto.bind MovieDetailDto.title
        year := c.movieDetailDto.bind MovieDetailDto.year
        imdb := some imdbID
        poster := c.movieDetailDto.bind MovieDetailDto.poster } := by
  simp only [film, child_withFields hn (title_mem_published c),
    child_withFields hn (year_mem_published c), child_withFields hn (poster_mem_published c),
    asString_nodeFrom]

theorem isEmpty_withFields_of_publishes {node : FNode} (hn : node.WellFormed KeysValid)
    {c : MovieDetailController} (h : Publishes c) : (withFields node c).isEmpty = false := by
  rcases h with ⟨field, value, hmem⟩
  apply KeyedTree.isEmpty_eq_false_of_child (k := field)
  rw [child_withFields hn hmem]
  rfl

/-- Deleting the three fields empties exactly the nodes that hold nothing else. -/
theorem isEmpty_withFields_iff {node : FNode} (hn : node.WellFormed KeysValid)
    {c : MovieDetailController} (h : ¬ Publishes c) :
    (withFields node c).isEmpty = true <-> OnlyFields node := by
  have hnone : forall p, p ∈ published c -> p.2 = none := by
    intro p hp
    cases hvalue : p.2 with
    | none => rfl
    | some value => exact absurd ⟨p.1, value, hvalue ▸ hp⟩ h
  have hleaf : (withFields node c).isLeaf = node.isLeaf := by
    apply KeyedTree.isLeaf_updates_direct
    intro f hf
    rcases List.mem_map.mp hf with ⟨p, hp, rfl⟩
    rw [isEmpty_nodeFrom, hnone p hp]
    rfl
  constructor
  · intro hempty
    have hnode : (withFields node c).isLeaf = false := by
      rw [KeyedTree.isEmpty_iff.mp hempty, KeyedTree.isLeaf_empty]
    refine ⟨hleaf.symm.trans hnode, ?_⟩
    intro k hk
    rcases child_withFields_cases hn c k with ⟨value, hp, _⟩ | ⟨_, hsame⟩
    · rw [← fields_published c]
      exact List.mem_map_of_mem (f := Prod.fst) hp
    · have hchild := (KeyedTree.isEmpty_iff_child (withFields_wellFormed hn c) hnode).mp hempty k
      rw [KeyedTree.mem_keys_iff hn, ← hsame, hchild] at hk
      cases hk
  · intro hnode
    rcases hnode with ⟨hnode, honly⟩
    rw [KeyedTree.isEmpty_iff_child (withFields_wellFormed hn c) (hleaf.trans hnode)]
    intro k
    rcases child_withFields_cases hn c k with ⟨value, hp, hfield⟩ | ⟨hout, hsame⟩
    · rw [hfield, isEmpty_nodeFrom, show value = none from hnone (k, value) hp]
      rfl
    · rw [hsame]
      cases hchild : (node.child k).isEmpty with
      | true => rfl
      | false => exact absurd (honly k ((KeyedTree.mem_keys_iff hn k).mpr hchild)) hout

section Cases

variable {node node' : FNode} {c : MovieDetailController}

theorem upserts_iff_of_publishes (hn : node.WellFormed KeysValid)
    (hn' : node'.WellFormed KeysValid) (hvalid : isValidKey c.imdbID = true)
    (hchild : node'.child c.imdbID = withFields (node.child c.imdbID) c)
    (hother : forall k, k ≠ c.imdbID -> node'.child k = node.child k) (hpub : Publishes c) :
    UpsertsExactly (filmsOf node) (filmsOf node') c <->
      exportsArray node.keys = false ∧
        exportsArray (c.imdbID :: node.keys.erase c.imdbID) = false := by
  have hfull : (node'.child c.imdbID).isEmpty = false := by
    rw [hchild]
    exact isEmpty_withFields_of_publishes (hn.child _) hpub
  have hperm := keys_perm_of_nonempty hn hn' hother hfull
  have hmem : c.imdbID ∈ node'.keys := (KeyedTree.mem_keys_iff hn' _).mpr hfull
  have hkept : forall k, k ∈ node.keys -> k ∈ node'.keys := by
    intro k hk
    by_cases hsame : k = c.imdbID
    · rw [hsame]
      exact hmem
    · rw [KeyedTree.mem_keys_iff hn', hother k hsame, ← KeyedTree.mem_keys_iff hn]
      exact hk
  rw [← exportsArray_perm hperm]
  constructor
  · intro h
    rcases (publishes_iff c).mp hpub with ⟨dto, hdto, hsome⟩
    have hlisted := h.publishes dto hdto hsome hvalid
    rw [filter_filmsOf hn'] at hlisted
    have harray' : exportsArray node'.keys = false := by
      by_cases hcond : exportsArray node'.keys = false ∧ c.imdbID ∈ node'.keys
      · exact hcond.left
      · rw [if_neg hcond] at hlisted
        cases hlisted
    refine ⟨?_, harray'⟩
    by_cases hothers : exists k, k ∈ node.keys ∧ k ≠ c.imdbID
    · rw [← (filter_perm_iff hn hn' hother).mp h.frame hothers]
      exact harray'
    · rw [exportsArray_perm hperm] at harray'
      exact exportsArray_of_no_other hothers harray'
  · intro harrays
    rcases harrays with ⟨harray, harray'⟩
    refine ⟨keeps_iff.mpr fun _ k hk => ⟨harray', hkept k hk⟩, ?_, ?_⟩
    · intro dto hdto _ _
      rw [filter_filmsOf hn', if_pos ⟨harray', hmem⟩, hchild, film_withFields (hn.child _), hdto]
      rfl
    · exact (filter_perm_iff hn hn' hother).mpr fun _ => harray'.trans harray.symm

theorem upserts_iff_of_not_publishes (hn : node.WellFormed KeysValid)
    (hn' : node'.WellFormed KeysValid)
    (hchild : node'.child c.imdbID = withFields (node.child c.imdbID) c)
    (hother : forall k, k ≠ c.imdbID -> node'.child k = node.child k) (hpub : ¬ Publishes c) :
    UpsertsExactly (filmsOf node) (filmsOf node') c <->
      (node.child c.imdbID).isEmpty = true ∨ ¬ OnlyFields (node.child c.imdbID) ∨
        exportsArray node.keys = true ∧
          (node.keys.erase c.imdbID = [] ∨ exportsArray (node.keys.erase c.imdbID) = true) := by
  have hvacuous : forall dto, c.movieDetailDto = some dto ->
      (dto.title ≠ none ∨ dto.year ≠ none ∨ dto.poster ≠ none) -> isValidKey c.imdbID = true ->
        (filmsOf node').filter (fun m => m.imdb == some c.imdbID) =
          [{ title := dto.title, year := dto.year, imdb := some c.imdbID, poster := dto.poster }] :=
    fun dto hdto hsome _ => absurd ((publishes_iff c).mpr ⟨dto, hdto, hsome⟩) hpub
  have hiff : (node'.child c.imdbID).isEmpty = true <-> OnlyFields (node.child c.imdbID) := by
    rw [hchild]
    exact isEmpty_withFields_iff (hn.child _) hpub
  by_cases hlost : (node.child c.imdbID).isEmpty = false ∧ OnlyFields (node.child c.imdbID)
  · -- the movie was there and its node is gone
    have hgone := hiff.mpr hlost.right
    have hperm := keys_perm_of_empty hn hn' hother hgone
    have hin : c.imdbID ∈ node.keys := (KeyedTree.mem_keys_iff hn _).mpr hlost.left
    have hout : c.imdbID ∉ node'.keys := by
      rw [KeyedTree.mem_keys_iff hn', hgone]
      simp
    rw [or_iff_right (by rw [hlost.left]; simp), or_iff_right (not_not_intro hlost.right),
      ← exportsArray_perm hperm, erase_eq_nil_iff hn.nodup_keys]
    constructor
    · intro h
      have harray : exportsArray node.keys = true := by
        cases harray : exportsArray node.keys with
        | true => rfl
        | false => exact absurd (keeps_iff.mp h.keeps harray _ hin).right hout
      refine ⟨harray, ?_⟩
      by_cases hex : exists k, k ∈ node.keys ∧ k ≠ c.imdbID
      · exact Or.inr (((filter_perm_iff hn hn' hother).mp h.frame hex).trans harray)
      · exact Or.inl hex
    · intro hlost
      rcases hlost with ⟨harray, hrest⟩
      refine ⟨keeps_iff.mpr ?_, hvacuous, (filter_perm_iff hn hn' hother).mpr ?_⟩
      · intro hfalse
        rw [harray] at hfalse
        cases hfalse
      · intro hex
        rw [harray]
        exact hrest.resolve_left (not_not_intro hex)
  · -- the movie was not there or its node survives: the keys are the same
    have hkept : (node'.child c.imdbID).isEmpty = (node.child c.imdbID).isEmpty := by
      cases hold : (node.child c.imdbID).isEmpty with
      | true =>
          apply hiff.mpr
          rw [KeyedTree.isEmpty_iff.mp hold]
          exact ⟨rfl, by simp⟩
      | false =>
          cases hnew : (node'.child c.imdbID).isEmpty with
          | true => exact absurd ⟨hold, hiff.mp hnew⟩ hlost
          | false => rfl
    have hperm := keys_perm_of_kept hn hn' hother hkept
    have harray := exportsArray_perm hperm
    refine iff_of_true ⟨keeps_iff.mpr ?_, hvacuous, (filter_perm_iff hn hn' hother).mpr ?_⟩ ?_
    · exact fun hfalse k hk => ⟨harray.trans hfalse, hperm.mem_iff.mpr hk⟩
    · exact fun _ => harray
    · cases hold : (node.child c.imdbID).isEmpty with
      | true => exact Or.inl rfl
      | false => exact Or.inr (Or.inl fun honly => hlost ⟨hold, honly⟩)

/-- A leaf below `pelis` decodes as a movie without title, year and poster. -/
theorem film_nodeFrom (field : String) (value : Option String) :
    film field (nodeFrom value) =
      { title := none, year := none, imdb := some field, poster := none } := by
  cases value <;> rfl

/-!
### A share without an `imdbID`
-/

/-- Each field written directly below `pelis` leaves the entry of its name as it was. -/
def LeavesEntries (node : FNode) (c : MovieDetailController) : Prop :=
  forall field value, (field, value) ∈ published c ->
    (value = none -> (node.child field).isEmpty = true) ∧
    (value ≠ none -> (node.child field).isEmpty = false ∧
      film field (node.child field) =
        { title := none, year := none, imdb := some field, poster := none })

/-- A deleted field would take its entry away. -/
theorem isEmpty_of_deleted (hn : node.WellFormed KeysValid)
    (h : UpsertsExactly (filmsOf node) (filmsOf (withFields node c)) c) {field : String}
    (hmem : (field, none) ∈ published c) : (node.child field).isEmpty = true := by
  have hfield := integerKey_of_field (List.mem_map_of_mem (f := Prod.fst) hmem)
  cases hold : (node.child field).isEmpty with
  | true => rfl
  | false =>
      have hin := (KeyedTree.mem_keys_iff hn field).mpr hold
      have harray := exportsArray_eq_false_of_mem hin hfield.left
      have hkept := (keeps_iff.mp h.keeps harray field hin).right
      rw [KeyedTree.mem_keys_iff (withFields_wellFormed hn c), child_withFields hn hmem,
        isEmpty_nodeFrom] at hkept
      cases hkept

/-- A written field appears as an entry of its own. -/
theorem film_of_written (hn : node.WellFormed KeysValid) (hid : c.imdbID = "")
    (h : UpsertsExactly (filmsOf node) (filmsOf (withFields node c)) c) {field value : String}
    (hmem : (field, some value) ∈ published c) :
    (node.child field).isEmpty = false ∧
      film field (node.child field) =
        { title := none, year := none, imdb := some field, poster := none } := by
  have hfield := integerKey_of_field (List.mem_map_of_mem (f := Prod.fst) hmem)
  have hne : field ≠ "" := (isValidKey_iff.mp hfield.right).left
  have hchild := child_withFields hn hmem
  have hin' : field ∈ (withFields node c).keys := by
    rw [KeyedTree.mem_keys_iff (withFields_wellFormed hn c), hchild, isEmpty_nodeFrom]
    rfl
  have harray' := exportsArray_eq_false_of_mem hin' hfield.left
  have hshown : film field ((withFields node c).child field) ∈
      (filmsOf (withFields node c)).filter fun m => m.imdb != some c.imdbID := by
    rw [mem_filter_filmsOf_iff]
    exact ⟨harray', field, hin', by rwa [hid], rfl⟩
  have hbefore := h.frame.subset hshown
  rw [mem_filter_filmsOf_iff] at hbefore
  rcases hbefore with ⟨_, k, hk, _, heq⟩
  have hkf : k = field := by
    have himdb := congrArg RecommendedMovie.imdb heq
    simpa using himdb.symm
  rw [hkf] at hk heq
  rw [hchild, film_nodeFrom] at heq
  exact ⟨(KeyedTree.mem_keys_iff hn field).mp hk, heq.symm⟩

theorem isEmpty_child_withFields (hn : node.WellFormed KeysValid) (hsafe : LeavesEntries node c)
    (k : String) : ((withFields node c).child k).isEmpty = (node.child k).isEmpty := by
  rcases child_withFields_cases hn c k with ⟨value, hp, hfield⟩ | ⟨_, hsame⟩
  · rw [hfield, isEmpty_nodeFrom]
    cases value with
    | none =>
        rw [(hsafe k none hp).left rfl]
        rfl
    | some value =>
        rw [((hsafe k (some value) hp).right (by simp)).left]
        rfl
  · rw [hsame]

theorem film_child_withFields (hn : node.WellFormed KeysValid) (hsafe : LeavesEntries node c)
    {k : String} (hk : k ∈ node.keys) :
    film k ((withFields node c).child k) = film k (node.child k) := by
  rcases child_withFields_cases hn c k with ⟨value, hp, hfield⟩ | ⟨_, hsame⟩
  · rw [hfield, film_nodeFrom]
    cases value with
    | none =>
        rw [KeyedTree.mem_keys_iff hn, (hsafe k none hp).left rfl] at hk
        cases hk
    | some value => exact ((hsafe k (some value) hp).right (by simp)).right.symm
  · rw [hsame]

theorem filmsOf_withFields_perm (hn : node.WellFormed KeysValid)
    (hsafe : LeavesEntries node c) : (filmsOf (withFields node c)).Perm (filmsOf node) := by
  have hn' := withFields_wellFormed hn c
  have hperm := KeyedTree.keys_perm hn' hn (isEmpty_child_withFields hn hsafe)
  apply (List.perm_ext_iff_of_nodup (nodup_filmsOf hn') (nodup_filmsOf hn)).mpr
  intro m
  rw [mem_filmsOf_iff, mem_filmsOf_iff, exportsArray_perm hperm]
  constructor
  · intro hshown
    rcases hshown with ⟨hlist, k, hk, rfl⟩
    have hk' := hperm.mem_iff.mp hk
    exact ⟨hlist, k, hk', film_child_withFields hn hsafe hk'⟩
  · intro hshown
    rcases hshown with ⟨hlist, k, hk, rfl⟩
    exact ⟨hlist, k, hperm.mem_iff.mpr hk, (film_child_withFields hn hsafe hk).symm⟩

theorem upserts_iff_of_empty_id (hn : node.WellFormed KeysValid) (hid : c.imdbID = "") :
    UpsertsExactly (filmsOf node) (filmsOf (withFields node c)) c <->
      LeavesEntries node c := by
  constructor
  · intro h field value hmem
    cases value with
    | none => exact ⟨fun _ => isEmpty_of_deleted hn h hmem, fun hsome => absurd rfl hsome⟩
    | some value => exact ⟨(nomatch ·), fun _ => film_of_written hn hid h hmem⟩
  · intro hsafe
    have hlists := filmsOf_withFields_perm hn hsafe
    refine ⟨fun m hm => ⟨m, hlists.mem_iff.mpr hm, rfl⟩, ?_, hlists.filter _⟩
    intro dto _ _ hvalid
    exact absurd hid (isValidKey_iff.mp hvalid).left

end Cases

/--
A share that runs to completion is an exact upsert of the decoded list exactly
when the screen and the shared tree meet `ShareIsSafe`.
-/
theorem share_upserts_iff_safe (db db' : Database) (c : MovieDetailController)
    (hid : FromList c.imdbID) (h : share db c = some db') :
    UpsertsExactly (getRecommendedMovies db.root) (getRecommendedMovies db'.root) c <->
      ShareIsSafe (pelis db) c := by
  have hn := pelis_wellFormed db
  have hn' := pelis_wellFormed db'
  have hafter := pelis_share hid h
  rw [list_eq, list_eq]
  by_cases hempty : c.imdbID = ""
  · rw [shareWrites, if_pos hempty] at hafter
    have hwith : pelis db' = withFields (pelis db) c := hafter
    rw [hwith, upserts_iff_of_empty_id hn hempty]
    simp [ShareIsSafe, hempty, LeavesEntries]
  · have hvalid : isValidKey c.imdbID = true := hid.resolve_right hempty
    rw [shareWrites, if_neg hempty] at hafter
    have hchild : (pelis db').child c.imdbID = withFields ((pelis db).child c.imdbID) c := by
      rw [hafter]
      exact KeyedTree.child_updates_under_self hn hvalid (validWrites_direct c)
    have hother : forall k, k ≠ c.imdbID -> (pelis db').child k = (pelis db).child k := by
      intro k hk
      rw [hafter]
      exact KeyedTree.child_updates_under_ne hk _
    by_cases hpub : Publishes c
    · rw [upserts_iff_of_publishes hn hn' hvalid hchild hother hpub]
      simp [ShareIsSafe, hempty, hpub]
    · rw [upserts_iff_of_not_publishes hn hn' hchild hother hpub]
      simp [ShareIsSafe, hempty, hpub]

def loadedScreen (imdbID : String) (fields : Fields) : MovieDetailController :=
  (MovieDetailController.opened imdbID).showMovie (fun value => some ⟨value⟩)
    (MovieDetailDto.mapping fields)

/-- A full response for one movie. -/
def matrixScreen : MovieDetailController :=
  loadedScreen "tt0133093"
    [⟨"Title", .string "The Matrix"⟩, ⟨"Year", .string "1999"⟩, ⟨"Poster", .string "m.jpg"⟩]

theorem share_upserts_iff_safe_matrixScreen :
    exists db', share Database.empty matrixScreen = some db' ∧
      (UpsertsExactly (getRecommendedMovies Database.empty.root) (getRecommendedMovies db'.root)
          matrixScreen <->
        ShareIsSafe (pelis Database.empty) matrixScreen) := by
  rcases Option.isSome_iff_exists.mp
    (by decide : (share Database.empty matrixScreen).isSome = true) with ⟨db', hshare⟩
  exact ⟨db', hshare, share_upserts_iff_safe _ db' _ (Or.inl (by decide)) hshare⟩

/-- Sharing a listed movie again, before the response arrives, takes it off the list. -/
theorem share_before_response_deletes :
    exists db db', share Database.empty matrixScreen = some db ∧
      share db (MovieDetailController.opened "tt0133093") = some db' ∧
      getRecommendedMovies db.root =
        [{ title := some "The Matrix", year := some "1999", imdb := some "tt0133093",
           poster := some "m.jpg" }] ∧
      getRecommendedMovies db'.root = [] ∧
      ¬ UpsertsExactly (getRecommendedMovies db.root) (getRecommendedMovies db'.root)
        (MovieDetailController.opened "tt0133093") := by
  have hrun : ((share Database.empty matrixScreen).bind fun db =>
      (share db (MovieDetailController.opened "tt0133093")).map fun db' =>
        (getRecommendedMovies db.root, getRecommendedMovies db'.root)) =
      some ([{ title := some "The Matrix", year := some "1999", imdb := some "tt0133093",
               poster := some "m.jpg" }], []) := by
    decide
  rcases Option.bind_eq_some_iff.mp hrun with ⟨db, hfirst, hmap⟩
  rcases Option.map_eq_some_iff.mp hmap with ⟨db', hsecond, hlists⟩
  rcases Prod.mk.inj hlists with ⟨hbefore, hafter⟩
  refine ⟨db, db', hfirst, hsecond, hbefore, hafter, ?_⟩
  intro h
  rw [hbefore, hafter] at h
  rcases h.keeps _ List.mem_cons_self with ⟨m', hm', _⟩
  cases hm'

end Recommended
end MyMovies
