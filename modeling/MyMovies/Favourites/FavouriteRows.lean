import MyMovies.Favourites.FavouritesController
import MyMovies.Favourites.FavouritesStore
import MyMovies.Search.MovieController

/-!
# What a favourite shows in its row

The detail screen writes a record field by field, the favourites screen reads the
record back and renders it as the search screen renders a hit.  A record gets its
fields when the movie is added for the first time; a later add finds the record
and sets nothing but its flag.
-/

namespace MyMovies
namespace Favourites

open Foundation Network Storage Search View

/-- A hit of the search list with the fields of a loaded movie. -/
def searchHit (dto : MovieDetailDto) : SearchDto where
  title := dto.title
  year := dto.year
  imdbID := dto.imdbID
  type := dto.type
  poster := dto.poster

/-- The list has one row for the movie, and it renders these values. -/
def RowShows (list : FavouritesController) (imdbID : String) (values : CellValues) : Prop :=
  exists row movie, list.reloaded[row]? = some movie ∧ movie.imdbID = some imdbID ∧
    list.cellForRowAt row = some (some values) ∧
    forall (row' : Nat) movie', list.reloaded[row']? = some movie' ->
      movie'.imdbID = some imdbID -> row' = row

/--
The movie has no year to show, and a record of it, favourite or not, has the title
and the poster of the movie.
-/
def RecordAgrees (s : StorageService) (imdbID : String) (dto : MovieDetailDto) : Prop :=
  dto.year.getD "" = "" ∧
    forall m, m ∈ s.records imdbID ->
      m.title.getD "" = dto.title.getD "" ∧ m.poster.getD "" = dto.poster.getD ""

def YearsUnset (s : StorageService) : Prop :=
  forall m, m ∈ s.viewContext -> m.year = none

/-!
## The record that an add leaves
-/

section Record

variable {s : StorageService} {dto : MovieDetailDto} {imdbID : String}

theorem storeAdded_record (hs : s.Inv) (hid : dto.imdbID = some imdbID) :
    exists m, (MovieDetailController.storeAdded s dto imdbID).records imdbID = [m] ∧
      m.isFavourite = true ∧
      ((s.records imdbID = [] ∧
          m = MovieDetailController.stationRecord dto s.nextObjectID) ∨
        exists r, s.records imdbID = [r] ∧ m = r.withFlag true) := by
  unfold MovieDetailController.storeAdded
  rcases hs.records_cases imdbID with hrec | ⟨r, hrec⟩
  · refine ⟨MovieDetailController.stationRecord dto s.nextObjectID, ?_, rfl,
      Or.inl ⟨hrec, rfl⟩⟩
    rw [if_pos hrec, StorageService.records_insert, hrec]
    simp [MovieDetailController.stationRecord_imdbID hid]
  · have hne : s.records imdbID ≠ [] := by simp [hrec]
    refine ⟨r.withFlag true, ?_, rfl, Or.inr ⟨r, hrec, rfl⟩⟩
    rw [if_neg hne, StorageService.records_reflag_self hs, hrec]
    rfl

theorem yearsUnset_reflag (hs : s.Inv) (h : YearsUnset s) (imdbID : String) (flag : Bool) :
    YearsUnset (s.reflag imdbID flag) := by
  intro m hm
  rcases StorageService.mem_reflag hs hm with ⟨m', hm', hsame | hflag⟩
  · rw [hsame]
    exact h m' hm'
  · rw [hflag]
    exact h m' hm'

theorem yearsUnset_storeAdded (hs : s.Inv) (h : YearsUnset s) (dto : MovieDetailDto)
    (imdbID : String) : YearsUnset (MovieDetailController.storeAdded s dto imdbID) := by
  unfold MovieDetailController.storeAdded
  split
  · intro m hm
    rw [StorageService.insert_viewContext, List.mem_append, List.mem_singleton] at hm
    rcases hm with hm | hm
    · exact h m hm
    · rw [hm]
      rfl
  · exact yearsUnset_reflag hs h imdbID true

end Record

/-!
## The row that the list renders
-/

section Row

variable {s : StorageService} {imdbID : String} {values : CellValues}

theorem getFavouritesMovies_answers (list : FavouritesController) (s : StorageService) :
    list.getFavouritesMovies s .answers =
      some (list.success (some (s.results FavouritesModel.favRequest))) := rfl

theorem reloaded_success (list : FavouritesController) (movies : List MovieEntity) :
    (list.success (some movies)).reloaded = movies := rfl

theorem cellForRowAt_success (list : FavouritesController) (movies : List MovieEntity)
    (row : Nat) :
    (list.success (some movies)).cellForRowAt row =
      movies[row]?.map fun movie => some (FavouritesController.cellValues movie) := rfl

theorem rowShows_iff (hs : s.Inv) (list : FavouritesController) {m : MovieEntity}
    (hmem : m ∈ s.viewContext) (hid : m.imdbID = some imdbID) (hflag : m.isFavourite = true) :
    RowShows (list.success (some (s.results FavouritesModel.favRequest))) imdbID values <->
      FavouritesController.cellValues m = values := by
  rw [FavouritesSystem.results_favRequest]
  have hnodup : (s.viewContext.filter MovieEntity.isFavourite).Nodup :=
    (List.Nodup.of_map _ hs.nodup_imdbID).filter _
  have honly : forall m', m' ∈ s.viewContext.filter MovieEntity.isFavourite ->
      m'.imdbID = some imdbID -> m' = m := by
    intro m' hm' hid'
    exact hs.eq_of_imdbID (List.mem_filter.mp hm').left hmem (hid'.trans hid.symm)
  constructor
  · intro hshows
    rcases hshows with ⟨row, movie, hrow, hmovie, hcell, _⟩
    rw [reloaded_success] at hrow
    have hsame := honly movie (List.mem_of_getElem? hrow) hmovie
    rw [cellForRowAt_success, hrow, hsame] at hcell
    exact Option.some.inj (Option.some.inj hcell)
  · intro hvalues
    rcases List.getElem?_of_mem (List.mem_filter.mpr ⟨hmem, hflag⟩) with ⟨row, hrow⟩
    refine ⟨row, m, hrow, hid, ?_, ?_⟩
    · rw [cellForRowAt_success, hrow, Option.map_some, hvalues]
    · intro row' movie' hrow' hmovie'
      rw [reloaded_success] at hrow'
      have hsame := honly movie' (List.mem_of_getElem? hrow') hmovie'
      rw [hsame] at hrow'
      rcases List.getElem?_eq_some_iff.mp hrow' with ⟨hlt, _⟩
      exact (List.getElem?_inj hlt hnodup).mp (hrow'.trans hrow.symm)

end Row

theorem rowShows_storeAdded_iff {s : StorageService} (hs : s.Inv) (hyears : YearsUnset s)
    {dto : MovieDetailDto} {imdbID : String} (hid : dto.imdbID = some imdbID)
    (list : FavouritesController) :
    RowShows
        (list.success (some ((MovieDetailController.storeAdded s dto imdbID).results
          FavouritesModel.favRequest)))
        imdbID (MovieController.cellValues (searchHit dto)) <->
      RecordAgrees s imdbID dto := by
  rcases storeAdded_record hs hid with ⟨m, hrec, hflag, hcase⟩
  have hm : m ∈ (MovieDetailController.storeAdded s dto imdbID).viewContext ∧
      m.imdbID = some imdbID := by
    rw [← StorageService.mem_records, hrec]
    exact List.mem_singleton_self m
  rw [rowShows_iff (MovieDetailController.inv_storeAdded hs hid) list hm.left hm.right hflag]
  have hyear : m.year = none := yearsUnset_storeAdded hs hyears dto imdbID m hm.left
  simp only [FavouritesController.cellValues, MovieController.cellValues, searchHit,
    CellValues.mk.injEq, hyear, Option.getD_none, RecordAgrees]
  rcases hcase with ⟨hnone, hnew⟩ | ⟨r, hfound, hkept⟩
  · rw [hnone, hnew]
    constructor
    · intro hshown
      exact ⟨hshown.right.right.symm, fun m hm => nomatch hm⟩
    · intro hagrees
      exact ⟨rfl, rfl, hagrees.left.symm⟩
  · rw [hfound, hkept]
    simp only [MovieEntity.withFlag, List.mem_singleton, forall_eq]
    constructor
    · intro hshown
      rcases hshown with ⟨hposter, htitle, hempty⟩
      exact ⟨hempty.symm, htitle, hposter⟩
    · intro hagrees
      rcases hagrees with ⟨hempty, htitle, hposter⟩
      exact ⟨hposter, htitle, hempty.symm⟩

/-!
## The stores that adds and removes reach
-/

namespace FavouritesSystem

theorem storage_step_cases (urlFromString : String -> Option URL) {s s' : FavouritesSystem}
    {e : FavouritesEvent} (hstep : s.step urlFromString e = some s') :
    s'.storage = s.storage ∨
    (exists dto imdbID,
      s'.storage = MovieDetailController.storeAdded s.storage dto imdbID) ∨
    (exists imdbID, s'.storage = s.storage.reflag imdbID false) := by
  cases e with
  | openScreen imdbID =>
      cases hstep
      exact Or.inl rfl
  | successSearch screen movieDetail countReply =>
      rcases onScreen_cases hstep with hsame | ⟨c, _, hmap⟩
      · exact Or.inl (congrArg storage hsame)
      · rcases Option.map_eq_some_iff.mp hmap with ⟨c', _, hupdate⟩
        cases hupdate
        exact Or.inl rfl
  | addToFavourites screen countReply fetchReply =>
      rcases onScreen_cases hstep with hsame | ⟨c, _, hupdate⟩
      · exact Or.inl (congrArg storage hsame)
      · cases hupdate
        rcases addToFavourites_cases s.storage c countReply fetchReply with
          ⟨_, heq⟩ | ⟨dto, imdbID, _, _, _, heq⟩
        · exact Or.inl (congrArg Prod.fst heq)
        · exact Or.inr (Or.inl ⟨dto, imdbID, congrArg Prod.fst heq⟩)
  | removeFromFavourites screen fetchReply =>
      rcases onScreen_cases hstep with hsame | ⟨c, _, hupdate⟩
      · exact Or.inl (congrArg storage hsame)
      · cases hupdate
        rcases removeFromFavourites_cases s.storage c fetchReply with
          ⟨_, heq | heq⟩ | ⟨imdbID, _, _, heq⟩
        · exact Or.inl (congrArg Prod.fst heq)
        · exact Or.inl (congrArg Prod.fst heq)
        · exact Or.inr (Or.inr ⟨imdbID, congrArg Prod.fst heq⟩)
  | getFavourites fetchReply =>
      cases hstep
      exact Or.inl rfl

theorem yearsUnset_step (urlFromString : String -> Option URL) (s : FavouritesSystem)
    (e : FavouritesEvent) (s' : FavouritesSystem) (h : s.Inv ∧ YearsUnset s.storage)
    (hstep : s.step urlFromString e = some s') : s'.Inv ∧ YearsUnset s'.storage := by
  rcases h with ⟨hinv, hyears⟩
  refine ⟨inv_step urlFromString s e s' hinv hstep, ?_⟩
  rcases storage_step_cases urlFromString hstep with
    hsame | ⟨dto, imdbID, hadded⟩ | ⟨imdbID, hcleared⟩
  · rw [hsame]
    exact hyears
  · rw [hadded]
    exact yearsUnset_storeAdded hinv.store hyears dto imdbID
  · rw [hcleared]
    exact yearsUnset_reflag hinv.store hyears imdbID false

theorem yearsUnset_run {urlFromString : String -> Option URL} {es : List FavouritesEvent}
    {s : FavouritesSystem} (h : Runs.run (step urlFromString) initial es = some s) :
    YearsUnset s.storage := by
  have hinitial : initial.Inv ∧ YearsUnset initial.storage := by
    refine ⟨inv_initial, ?_⟩
    intro m hm
    cases hm
  exact (Runs.run_invariant (yearsUnset_step urlFromString) hinitial h).right

/--
After an add that completes, the favourites list renders the movie as the search list
does exactly if the movie has no year and a record left of it agrees with it.
-/
theorem favourite_row_shows_movie_iff (urlFromString : String -> Option URL)
    (es : List FavouritesEvent) (s : FavouritesSystem)
    (h : Runs.run (step urlFromString) initial es = some s)
    (c : MovieDetailController) (dto : MovieDetailDto) (imdbID : String)
    (hdto : c.movieDetailDto = some dto) (hid : dto.imdbID = some imdbID)
    (countReply fetchReply : CoreDataReply)
    (hadd : MovieDetailController.AddCompletes s.storage imdbID countReply fetchReply)
    (list list' : FavouritesController)
    (hread : list.getFavouritesMovies
      (c.addToFavourites s.storage countReply fetchReply).1 .answers = some list') :
    RowShows list' imdbID (MovieController.cellValues (searchHit dto)) <->
      RecordAgrees s.storage imdbID dto := by
  have hstored := MovieDetailController.addToFavourites_eq (s := s.storage) hdto hid countReply
    fetchReply
  rw [MovieDetailController.addToFavouritesDo_of_completes c dto hadd] at hstored
  rw [hstored, getFavouritesMovies_answers] at hread
  cases hread
  exact rowShows_storeAdded_iff (inv_run h).store (yearsUnset_run h) hid list

def loadedMovie (title : String) (year : Option String) : MovieDetailDto :=
  { MovieDetailDto.mapping [] with
    title := some title
    year := year
    poster := some "matrix.jpg"
    imdbID := some "tt0133093" }

/-- The movie is loaded, added and taken out again, then loaded once more. -/
def reloadedRun (first second : MovieDetailDto) : List FavouritesEvent :=
  [.openScreen "tt0133093", .successSearch 0 (some first) .answers,
    .addToFavourites 0 .answers .answers, .removeFromFavourites 0 .answers,
    .successSearch 0 (some second) .answers]

theorem favourite_row_shows_movie_iff_readded :
    exists s c list, Runs.run (step fun value => some ⟨value⟩) initial
        (reloadedRun (loadedMovie "The Matrix" none) (loadedMovie "The Matrix" none)) = some s ∧
      s.screens[0]? = some c ∧
      FavouritesController.initial.getFavouritesMovies
        (c.addToFavourites s.storage .answers .answers).1 .answers = some list ∧
      RowShows list "tt0133093" ⟨"matrix.jpg", "The Matrix", ""⟩ := by
  have hrun : ((Runs.run (step fun value => some ⟨value⟩) initial
      (reloadedRun (loadedMovie "The Matrix" none) (loadedMovie "The Matrix" none))).bind fun s =>
        s.screens[0]?.map fun c => (c.movieDetailDto, s.storage.records "tt0133093")) =
      some (some (loadedMovie "The Matrix" none),
        [(MovieDetailController.stationRecord (loadedMovie "The Matrix" none) 0).withFlag
          false]) := by
    decide
  rcases Option.bind_eq_some_iff.mp hrun with ⟨s, hs, hmap⟩
  rcases Option.map_eq_some_iff.mp hmap with ⟨c, hc, hobs⟩
  simp only [Prod.mk.injEq] at hobs
  rcases hobs with ⟨hdto, hrec⟩
  refine ⟨s, c, _, hs, hc, getFavouritesMovies_answers _ _, ?_⟩
  have hiff := favourite_row_shows_movie_iff _ _ s hs c _ "tt0133093" hdto rfl .answers .answers
    ⟨rfl, fun _ => rfl⟩ _ _ (getFavouritesMovies_answers FavouritesController.initial _)
  apply hiff.mpr
  refine ⟨rfl, ?_⟩
  intro m hm
  rw [hrec, List.mem_singleton] at hm
  rw [hm]
  exact ⟨rfl, rfl⟩

def listAfterAdd (es : List FavouritesEvent) : Option FavouritesController :=
  (Runs.run (step fun value => some ⟨value⟩) initial es).bind fun s =>
    s.screens[0]?.bind fun c => FavouritesController.initial.getFavouritesMovies
      (c.addToFavourites s.storage .answers .answers).1 .answers

theorem not_rowShows_of_single {list : FavouritesController} {imdbID : String}
    {shown values : CellValues} (hlength : list.reloaded.length = 1)
    (hcell : list.cellForRowAt 0 = some (some shown)) (hne : shown ≠ values) :
    ¬ RowShows list imdbID values := by
  intro hshows
  rcases hshows with ⟨row, movie, hrow, _, hvalues, _⟩
  rcases List.getElem?_eq_some_iff.mp hrow with ⟨hlt, _⟩
  have hzero : row = 0 := by omega
  rw [hzero, hcell] at hvalues
  exact hne (Option.some.inj (Option.some.inj hvalues))

theorem row_missed_of_run {es : List FavouritesEvent} {imdbID : String}
    {shown values : CellValues}
    (hrun : (listAfterAdd es).map (fun list => (list.reloaded.length, list.cellForRowAt 0)) =
      some (1, some (some shown))) (hne : shown ≠ values) :
    exists list, listAfterAdd es = some list ∧ list.cellForRowAt 0 = some (some shown) ∧
      ¬ RowShows list imdbID values := by
  rcases Option.map_eq_some_iff.mp hrun with ⟨list, hlist, hobs⟩
  rcases Prod.mk.inj hobs with ⟨hlength, hcell⟩
  exact ⟨list, hlist, hcell, not_rowShows_of_single hlength hcell hne⟩

/-- The year is lost at the first add; a second add keeps the title of the first. -/
theorem favourite_row_loses_fields :
    (exists list, listAfterAdd [.openScreen "tt0133093",
        .successSearch 0 (some (loadedMovie "The Matrix" (some "1999"))) .answers] = some list ∧
      list.cellForRowAt 0 = some (some ⟨"matrix.jpg", "The Matrix", ""⟩) ∧
      ¬ RowShows list "tt0133093" (MovieController.cellValues
        (searchHit (loadedMovie "The Matrix" (some "1999"))))) ∧
    (exists list, listAfterAdd (reloadedRun (loadedMovie "Matrix" none)
        (loadedMovie "The Matrix" none)) = some list ∧
      list.cellForRowAt 0 = some (some ⟨"matrix.jpg", "Matrix", ""⟩) ∧
      ¬ RowShows list "tt0133093" (MovieController.cellValues
        (searchHit (loadedMovie "The Matrix" none)))) := by
  constructor
  · exact row_missed_of_run (by decide) (by decide)
  · exact row_missed_of_run (by decide) (by decide)

end FavouritesSystem

end Favourites
end MyMovies
