import MyMovies.Foundation.Runs
import MyMovies.Firebase.Database
import MyMovies.Loader.LoaderManager
import MyMovies.Storage.StorageService
import MyMovies.View.Utilities

/-!
# The detail screen

`MovieDetailController` with its presenter.  The screen asks for the details of
one `imdbID` when its view loads and gets one answer.  A method that can trap
returns `none` when it does; a method that runs Core Data queries takes the
replies of these queries and the store.
-/

namespace MyMovies
namespace View

open Network Storage Firebase Loader

inductive FavState where
  | isFavourite
  | notFavourite
deriving DecidableEq, Repr

structure MovieDetailController where
  imdbID : String
  movieDetailDto : Option MovieDetailDto
  hasPresenter : Bool
  isFavourite : Option FavState
  favButtonImage : Option String
  movieTitle : String
  movieDate : String
  movieDuration : String
  movieGenre : String
  moviePlot : String
  movieWebSite : UITextView
  movieImage : UIImageView
  alerts : List String
  /-- The request for the details has not been answered. -/
  outstanding : Bool
  view : LoaderView
deriving DecidableEq, Repr

namespace MovieDetailController

/-- The screen as the storyboard creates it for a list entry. -/
def instantiate (imdbID : String) : MovieDetailController where
  imdbID := imdbID
  movieDetailDto := none
  hasPresenter := false
  isFavourite := none
  favButtonImage := none
  movieTitle := "Titulo"
  movieDate := "Fecha"
  movieDuration := "Duración"
  movieGenre := "Género"
  moviePlot := "Sinopsis"
  movieWebSite := UITextView.initial "Sitio Web"
  movieImage := UIImageView.initial
  alerts := []
  outstanding := false
  view := LoaderView.initial

def viewDidLoad (c : MovieDetailController) : MovieDetailController :=
  { c with
    hasPresenter := true
    view := c.view.showLoadingView
    outstanding := true }

def opened (imdbID : String) : MovieDetailController := (instantiate imdbID).viewDidLoad

def favouriteIcon : FavState -> String
  | .isFavourite => "remove-favourite"
  | .notFavourite => "add-favorite"

def updateFavouriteUI (c : MovieDetailController) (state : FavState) : MovieDetailController :=
  { c with favButtonImage := some (favouriteIcon state) }

/-!
## The response
-/

section Response

variable (urlFromString : String -> Option URL)

def initMovieDetail (c : MovieDetailController)
    (movieTitle movieImage movieDate movieDuration movieGenre movieWebsite moviePlot : String) :
    MovieDetailController :=
  let c :=
    { c with
      movieTitle := movieTitle
      movieDate := movieDate
      movieDuration := movieDuration
      movieGenre := movieGenre
      movieWebSite :=
        (c.movieWebSite.setAsLink urlFromString movieWebsite).setTappable movieWebsite
      moviePlot := moviePlot }
  match urlFromString (checkImageUrl movieImage) with
  | none => c
  | some movieImageURL =>
      { c with
        movieImage :=
          (c.movieImage.sd_setImage movieImageURL (some (.named "noposter"))).setSaveGesture }

/-- `successSearch` up to the favourite query. -/
def showMovie (c : MovieDetailController) (movieDetail : MovieDetailDto) :
    MovieDetailController :=
  let c := { c with movieDetailDto := some movieDetail, view := c.view.removeLoadingView }
  c.initMovieDetail urlFromString (movieDetail.title.getD "") (movieDetail.poster.getD "")
    (movieDetail.released.getD "") (movieDetail.runtime.getD "") (movieDetail.genre.getD "")
    (movieDetail.website.getD "") (movieDetail.plot.getD "")

def favouriteRequest (imdbID : String) : NSFetchRequest where
  predicate := .and (.imdbIDEquals imdbID) (.isFavouriteEquals true)
  fetchLimit := none

/-- The `do`/`catch` of `successSearch`. -/
def queryFavourite (s : StorageService) (c : MovieDetailController) (imdbID : String)
    (countReply : CoreDataReply) : MovieDetailController :=
  match s.count (favouriteRequest imdbID) countReply with
  | .ok count =>
      if count = 1 then
        { c.updateFavouriteUI .isFavourite with isFavourite := some .isFavourite }
      else
        { c with isFavourite := some .notFavourite }
  | .error _ => c

/-- `none` stands for `presenter!` or the final `self.isFavourite` being `nil`. -/
def successSearch (s : StorageService) (c : MovieDetailController)
    (movieDetail : Option MovieDetailDto) (countReply : CoreDataReply) :
    Option MovieDetailController :=
  match movieDetail with
  | none => some c
  | some movieDetail =>
      if c.hasPresenter then
        let c := c.showMovie urlFromString movieDetail
        match movieDetail.imdbID with
        | none => some (c.updateFavouriteUI .notFavourite)
        | some imdbID =>
            let c := c.queryFavourite s imdbID countReply
            c.isFavourite.map c.updateFavouriteUI
      else
        none

def failed (c : MovieDetailController) (error : String) : MovieDetailController :=
  { c with alerts := error :: c.alerts }

/-- The callback of `MovieDetailPresenter.getMovieDetail`, with `error!`. -/
def getMovieDetailCallback (s : StorageService) (c : MovieDetailController)
    (callback : ModelCallback MovieDetailDto) (countReply : CoreDataReply) :
    Option MovieDetailController :=
  if callback.isSuccessful then
    c.successSearch urlFromString s callback.success countReply
  else
    callback.fail.map c.failed

def answered (c : MovieDetailController) : MovieDetailController :=
  { c with outstanding := false }

/-- The response to the request of `viewDidLoad`, which is answered once. -/
def receive (locale : AppLocale) (s : StorageService) (c : MovieDetailController)
    (r : DataResponse) (countReply : CoreDataReply) : Option MovieDetailController :=
  if c.outstanding then
    c.answered.getMovieDetailCallback urlFromString s
      (MovieDetailModel.getMovieDetail locale r) countReply
  else
    some c

end Response

/-!
## Favourites
-/

def stationRecord (movieDetailDto : MovieDetailDto) (objectID : Nat) : MovieEntity where
  objectID := objectID
  title := movieDetailDto.title
  year := none
  poster := movieDetailDto.poster
  released := movieDetailDto.released
  runtime := movieDetailDto.runtime
  genre := movieDetailDto.genre
  website := movieDetailDto.website
  plot := movieDetailDto.plot
  imdbID := movieDetailDto.imdbID
  isFavourite := true

/-- The request of `addToFavourites` and `removeFromFavourites`. -/
def recordRequest (imdbID : String) : NSFetchRequest where
  predicate := .imdbIDEquals imdbID
  fetchLimit := some 1

/-- The `do` block of `addToFavourites`; nothing changes before a query that throws. -/
def addToFavouritesDo (s : StorageService) (c : MovieDetailController)
    (movieDetailDto : MovieDetailDto) (imdbID : String)
    (countReply fetchReply : CoreDataReply) :
    Except String (StorageService × MovieDetailController) := do
  let count <- s.count (recordRequest imdbID) countReply
  if count = 1 then
    let record <- s.fetch (recordRequest imdbID) fetchReply
    return ((s.setIsFavourite record.head? true).saveContext,
      { c with isFavourite := some .isFavourite }.updateFavouriteUI .isFavourite)
  else
    return ((s.insert (stationRecord movieDetailDto)).saveContext,
      { c.updateFavouriteUI .isFavourite with isFavourite := some .isFavourite })

def addToFavourites (s : StorageService) (c : MovieDetailController)
    (countReply fetchReply : CoreDataReply) : StorageService × MovieDetailController :=
  match c.movieDetailDto with
  | none => (s, c)
  | some movieDetailDto =>
      match movieDetailDto.imdbID with
      | none => (s, c)
      | some imdbID =>
          match c.addToFavouritesDo s movieDetailDto imdbID countReply fetchReply with
          | .ok result => result
          | .error _ => (s, c)

/-- The `do` block of `removeFromFavourites`. -/
def removeFromFavouritesDo (s : StorageService) (c : MovieDetailController) (imdbID : String)
    (fetchReply : CoreDataReply) : Except String (StorageService × MovieDetailController) := do
  let record <- s.fetch (recordRequest imdbID) fetchReply
  return ((s.setIsFavourite record.head? false).saveContext,
    { c with isFavourite := some .notFavourite }.updateFavouriteUI .notFavourite)

def removeFromFavourites (s : StorageService) (c : MovieDetailController)
    (fetchReply : CoreDataReply) : StorageService × MovieDetailController :=
  match c.movieDetailDto.bind MovieDetailDto.imdbID with
  | none => (s, c.updateFavouriteUI .notFavourite)
  | some imdbID =>
      match c.removeFromFavouritesDo s imdbID fetchReply with
      | .ok result => result
      | .error _ => (s, c)

def toFavourites (s : StorageService) (c : MovieDetailController)
    (countReply fetchReply : CoreDataReply) : StorageService × MovieDetailController :=
  if c.isFavourite = some .isFavourite then
    c.removeFromFavourites s fetchReply
  else
    c.addToFavourites s countReply fetchReply

/-!
## Sharing
-/

/-- One `setValue` of `shareTapped`. -/
def shareField (imdbID field : String) (value : Option String) : Option Write :=
  (reference.child ("pelis/" ++ imdbID ++ "/" ++ field)).bind fun ref => ref.setValue value

/-- The writes in the order in which they are issued; `none` is an exception. -/
def shareTapped (c : MovieDetailController) : Option (List Write) := do
  let title <- shareField c.imdbID "title" (c.movieDetailDto.bind MovieDetailDto.title)
  let year <- shareField c.imdbID "year" (c.movieDetailDto.bind MovieDetailDto.year)
  let poster <- shareField c.imdbID "poster" (c.movieDetailDto.bind MovieDetailDto.poster)
  return [title, year, poster]

/-!
## What the response does
-/

def showFavourite (c : MovieDetailController) (state : FavState) : MovieDetailController :=
  { c with isFavourite := some state, favButtonImage := some (favouriteIcon state) }

def favState (flag : Bool) : FavState :=
  if flag then .isFavourite else .notFavourite

/-- The status that an answered favourite query leads to. -/
def countedState (s : StorageService) (imdbID : String) : FavState :=
  favState ((s.results (favouriteRequest imdbID)).length == 1)

/-- The `imdbID` of the response, under which the screen uses the store. -/
def loadedID (c : MovieDetailController) : Option String :=
  c.movieDetailDto.bind MovieDetailDto.imdbID

theorem results_recordRequest (s : StorageService) (imdbID : String) :
    s.results (recordRequest imdbID) = (s.records imdbID).take 1 := rfl

theorem results_favouriteRequest (s : StorageService) (imdbID : String) :
    s.results (favouriteRequest imdbID) =
      (s.records imdbID).filter MovieEntity.isFavourite := by
  simp only [StorageService.results, favouriteRequest, StorageService.records,
    List.filter_filter]
  apply List.filter_congr
  intro m _
  cases hm : m.isFavourite <;> simp [NSPredicate.evaluate, hm]

/-- With one record per movie, `count == 1` is the stored flag. -/
theorem countedState_eq {s : StorageService} (hs : s.Inv) (imdbID : String) :
    countedState s imdbID = favState (s.isFavourite imdbID) := by
  rw [countedState, results_favouriteRequest, StorageService.isFavourite]
  rcases hs.records_cases imdbID with hrec | ⟨m, hrec⟩
  · simp [hrec]
  · cases hm : m.isFavourite <;> simp [hrec, hm]

section Response

variable (urlFromString : String -> Option URL)

@[simp] theorem showMovie_movieDetailDto (c : MovieDetailController) (dto : MovieDetailDto) :
    (c.showMovie urlFromString dto).movieDetailDto = some dto := by
  unfold showMovie initMovieDetail
  split <;> rfl

@[simp] theorem showMovie_isFavourite (c : MovieDetailController) (dto : MovieDetailDto) :
    (c.showMovie urlFromString dto).isFavourite = c.isFavourite := by
  unfold showMovie initMovieDetail
  split <;> rfl

@[simp] theorem showMovie_hasPresenter (c : MovieDetailController) (dto : MovieDetailDto) :
    (c.showMovie urlFromString dto).hasPresenter = c.hasPresenter := by
  unfold showMovie initMovieDetail
  split <;> rfl

@[simp] theorem showMovie_outstanding (c : MovieDetailController) (dto : MovieDetailDto) :
    (c.showMovie urlFromString dto).outstanding = c.outstanding := by
  unfold showMovie initMovieDetail
  split <;> rfl

@[simp] theorem showMovie_view (c : MovieDetailController) (dto : MovieDetailDto) :
    (c.showMovie urlFromString dto).view = c.view.removeLoadingView := by
  unfold showMovie initMovieDetail
  split <;> rfl

theorem showMovie_movieImage {c : MovieDetailController} (h : c.movieImage.Inv)
    (dto : MovieDetailDto) : (c.showMovie urlFromString dto).movieImage.Inv := by
  unfold showMovie initMovieDetail
  split
  · exact h
  · exact UIImageView.inv_sd_setImage _ _ _

section Loaded

variable {urlFromString} {s : StorageService} {c : MovieDetailController}
  {dto : MovieDetailDto} {imdbID : String}

theorem successSearch_of_no_id (hc : c.hasPresenter = true) (hid : dto.imdbID = none)
    (countReply : CoreDataReply) :
    c.successSearch urlFromString s (some dto) countReply =
      some ((c.showMovie urlFromString dto).updateFavouriteUI .notFavourite) := by
  simp [successSearch, hc, hid]

theorem successSearch_answers (hc : c.hasPresenter = true) (hid : dto.imdbID = some imdbID) :
    c.successSearch urlFromString s (some dto) .answers =
      some ((c.showMovie urlFromString dto).showFavourite (countedState s imdbID)) := by
  simp only [successSearch, hc, hid, if_true, queryFavourite, StorageService.count,
    countedState, favState]
  by_cases hcount : (s.results (favouriteRequest imdbID)).length = 1
  · simp [hcount, showFavourite, updateFavouriteUI]
  · simp [hcount, showFavourite, updateFavouriteUI]

theorem successSearch_throws (hc : c.hasPresenter = true) (hid : dto.imdbID = some imdbID)
    (error : String) :
    c.successSearch urlFromString s (some dto) (.throws error) =
      c.isFavourite.map (c.showMovie urlFromString dto).updateFavouriteUI := by
  simp [successSearch, hc, hid, queryFavourite, StorageService.count]

theorem successSearch_cases (hc : c.hasPresenter = true) {countReply : CoreDataReply}
    {c' : MovieDetailController}
    (h : c.successSearch urlFromString s (some dto) countReply = some c') :
    exists state, c' = (c.showMovie urlFromString dto).updateFavouriteUI state ∨
      c' = (c.showMovie urlFromString dto).showFavourite state := by
  cases hid : dto.imdbID with
  | none =>
      rw [successSearch_of_no_id hc hid] at h
      cases h
      exact ⟨_, Or.inl rfl⟩
  | some imdbID =>
      cases countReply with
      | answers =>
          rw [successSearch_answers hc hid] at h
          cases h
          exact ⟨_, Or.inr rfl⟩
      | throws error =>
          rw [successSearch_throws hc hid] at h
          rcases Option.map_eq_some_iff.mp h with ⟨state, _, rfl⟩
          exact ⟨state, Or.inl rfl⟩

end Loaded

theorem receive_cases (locale : AppLocale) (s : StorageService) {c : MovieDetailController}
    (hout : c.outstanding = true) (r : DataResponse) (countReply : CoreDataReply) :
    (exists dto, (MovieDetailModel.getMovieDetail locale r).success = some dto ∧
      c.receive urlFromString locale s r countReply =
        c.answered.successSearch urlFromString s (some dto) countReply) ∨
    (exists error, (MovieDetailModel.getMovieDetail locale r).success = none ∧
      c.receive urlFromString locale s r countReply =
        some (c.answered.failed error)) := by
  have heq : c.receive urlFromString locale s r countReply =
      c.answered.getMovieDetailCallback urlFromString s
        (MovieDetailModel.getMovieDetail locale r) countReply := if_pos hout
  rcases modelCallback_cases MovieDetailDto.mapping (ApiManager.get locale r) with
    ⟨dto, hcall⟩ | ⟨error, hcall⟩
  · have hmodel : MovieDetailModel.getMovieDetail locale r = _ := hcall
    rw [heq, hmodel]
    exact Or.inl ⟨dto, rfl, rfl⟩
  · have hmodel : MovieDetailModel.getMovieDetail locale r = _ := hcall
    rw [heq, hmodel]
    exact Or.inr ⟨error, rfl, rfl⟩

end Response

/-!
## What the favourite operations do
-/

section Favourites

variable {s : StorageService} {c : MovieDetailController} {dto : MovieDetailDto}
  {imdbID : String}

def storeAdded (s : StorageService) (dto : MovieDetailDto) (imdbID : String) :
    StorageService :=
  if s.records imdbID = [] then
    (s.insert (stationRecord dto)).saveContext
  else
    s.reflag imdbID true

/-- The queries of an add that are made are answered. -/
def AddCompletes (s : StorageService) (imdbID : String)
    (countReply fetchReply : CoreDataReply) : Prop :=
  countReply = .answers ∧ (s.records imdbID ≠ [] -> fetchReply = .answers)

instance AddCompletes.decidable (s : StorageService) (imdbID : String)
    (countReply fetchReply : CoreDataReply) :
    Decidable (AddCompletes s imdbID countReply fetchReply) :=
  inferInstanceAs (Decidable (_ ∧ (_ -> _)))

theorem head_take_one (ms : List MovieEntity) : (ms.take 1).head? = ms.head? := by
  cases ms <;> rfl

theorem length_take_one (ms : List MovieEntity) : (ms.take 1).length = 1 <-> ms ≠ [] := by
  cases ms <;> simp

theorem addToFavouritesDo_of_completes (c : MovieDetailController) (dto : MovieDetailDto)
    {countReply fetchReply : CoreDataReply} (h : AddCompletes s imdbID countReply fetchReply) :
    c.addToFavouritesDo s dto imdbID countReply fetchReply =
      .ok (storeAdded s dto imdbID, c.showFavourite .isFavourite) := by
  rcases h with ⟨rfl, hfetch⟩
  simp only [addToFavouritesDo, StorageService.count, results_recordRequest, bind,
    Except.bind, length_take_one, storeAdded]
  by_cases hrec : s.records imdbID = []
  · simp [hrec, pure, Except.pure, showFavourite, updateFavouriteUI]
  · simp [hrec, hfetch hrec, StorageService.fetch, results_recordRequest, pure, Except.pure,
      head_take_one, StorageService.reflag, showFavourite, updateFavouriteUI]

theorem addToFavouritesDo_of_not_completes (c : MovieDetailController) (dto : MovieDetailDto)
    {countReply fetchReply : CoreDataReply} (h : ¬ AddCompletes s imdbID countReply fetchReply) :
    exists error, c.addToFavouritesDo s dto imdbID countReply fetchReply = .error error := by
  simp only [addToFavouritesDo, bind, Except.bind]
  cases countReply with
  | throws error => exact ⟨error, rfl⟩
  | answers =>
      have hrec : s.records imdbID ≠ [] := by
        intro hnil
        exact h ⟨rfl, fun hne => absurd hnil hne⟩
      cases fetchReply with
      | answers => exact absurd ⟨rfl, fun _ => rfl⟩ h
      | throws error =>
          refine ⟨error, ?_⟩
          simp [StorageService.count, results_recordRequest, hrec, StorageService.fetch]

theorem removeFromFavouritesDo_answers :
    c.removeFromFavouritesDo s imdbID .answers =
      .ok (s.reflag imdbID false, c.showFavourite .notFavourite) := by
  simp [removeFromFavouritesDo, StorageService.fetch, results_recordRequest, bind, Except.bind,
    pure, Except.pure, head_take_one, StorageService.reflag, showFavourite, updateFavouriteUI]

theorem removeFromFavouritesDo_throws (error : String) :
    c.removeFromFavouritesDo s imdbID (.throws error) = .error error := rfl

theorem addToFavourites_eq (hdto : c.movieDetailDto = some dto)
    (hid : dto.imdbID = some imdbID) (countReply fetchReply : CoreDataReply) :
    c.addToFavourites s countReply fetchReply =
      match c.addToFavouritesDo s dto imdbID countReply fetchReply with
      | .ok result => result
      | .error _ => (s, c) := by
  simp only [addToFavourites, hdto, hid]

theorem addToFavourites_of_no_id (hid : c.loadedID = none)
    (countReply fetchReply : CoreDataReply) :
    c.addToFavourites s countReply fetchReply = (s, c) := by
  unfold addToFavourites
  cases hdto : c.movieDetailDto with
  | none => rfl
  | some dto =>
      have hnone : dto.imdbID = none := by simpa [loadedID, hdto] using hid
      simp only [hnone]

theorem removeFromFavourites_of_no_id (hid : c.loadedID = none) (fetchReply : CoreDataReply) :
    c.removeFromFavourites s fetchReply = (s, c.updateFavouriteUI .notFavourite) := by
  have hnone : c.movieDetailDto.bind MovieDetailDto.imdbID = none := hid
  simp only [removeFromFavourites, hnone]

theorem removeFromFavourites_eq (hid : c.loadedID = some imdbID) (fetchReply : CoreDataReply) :
    c.removeFromFavourites s fetchReply =
      match c.removeFromFavouritesDo s imdbID fetchReply with
      | .ok result => result
      | .error _ => (s, c) := by
  have hsome : c.movieDetailDto.bind MovieDetailDto.imdbID = some imdbID := hid
  simp only [removeFromFavourites, hsome]

/-!
### The store after an add
-/

theorem stationRecord_imdbID (hid : dto.imdbID = some imdbID) (objectID : Nat) :
    (stationRecord dto objectID).imdbID = some imdbID := hid

theorem inv_storeAdded (hs : s.Inv) (hid : dto.imdbID = some imdbID) :
    (storeAdded s dto imdbID).Inv := by
  unfold storeAdded
  by_cases hrec : s.records imdbID = []
  · rw [if_pos hrec]
    exact StorageService.inv_insert hs hrec (fun _ => rfl) (stationRecord_imdbID hid)
  · rw [if_neg hrec]
    exact StorageService.inv_reflag hs imdbID true

theorem records_storeAdded_ne (hs : s.Inv) (hid : dto.imdbID = some imdbID) {j : String}
    (hj : j ≠ imdbID) : (storeAdded s dto imdbID).records j = s.records j := by
  unfold storeAdded
  by_cases hrec : s.records imdbID = []
  · rw [if_pos hrec, StorageService.records_insert]
    simp [stationRecord_imdbID hid, Ne.symm hj]
  · rw [if_neg hrec]
    exact StorageService.records_reflag_ne hs hj

theorem isFavourite_reflag (hs : s.Inv) (imdbID : String) (flag : Bool) :
    (s.reflag imdbID flag).isFavourite imdbID = (flag && decide (s.records imdbID ≠ [])) := by
  rw [StorageService.isFavourite, StorageService.records_reflag_self hs]
  rcases hs.records_cases imdbID with hrec | ⟨m, hrec⟩
  · simp [hrec]
  · simp [hrec, MovieEntity.withFlag]

theorem isFavourite_storeAdded (hs : s.Inv) (hid : dto.imdbID = some imdbID) :
    (storeAdded s dto imdbID).isFavourite imdbID = true := by
  unfold storeAdded
  by_cases hrec : s.records imdbID = []
  · rw [if_pos hrec, StorageService.isFavourite, StorageService.records_insert]
    simp [stationRecord, hid]
  · rw [if_neg hrec, isFavourite_reflag hs]
    simp [hrec]

end Favourites

end MovieDetailController
end View
end MyMovies
