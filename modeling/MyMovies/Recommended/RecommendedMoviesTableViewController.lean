import MyMovies.Foundation.TableRows
import MyMovies.Loader.LoaderManager
import MyMovies.Network.Pipeline
import MyMovies.Recommended.RecommendedModel
import MyMovies.View.Utilities

/-!
# The recommended screen

`RecommendedMoviesTableViewController` with its presenter and model, after
`viewDidLoad`.  Each appearance empties the list and registers a value observer
that is never removed; each event of an observer rebuilds or fails the screen.
-/

namespace MyMovies
namespace Recommended

open Foundation Firebase Network Loader View

/-- What a value observer of the database is told. -/
inductive ObserverEvent where
  | value (snapshot : Database)
  | cancelled (error : String)

structure RecommendedMoviesTableViewController where
  movies : List RecommendedMovie
  /-- The elements the table counted at its last reload. -/
  reloaded : List RecommendedMovie
  /-- `RecommendedModel.recommendedMovies`. -/
  modelMovies : List RecommendedMovie
  pushed : List String
  /-- Calls of `success`, each with a rebuilt list and a reload; no code reads it. -/
  rebuilds : Nat
  alerts : List String
  view : LoaderView

namespace RecommendedMoviesTableViewController

def initial : RecommendedMoviesTableViewController where
  movies := []
  reloaded := []
  modelMovies := []
  pushed := []
  rebuilds := 0
  alerts := []
  view := LoaderView.initial

/-- `viewDidAppear` up to the registration of the observer. -/
def viewDidAppear (c : RecommendedMoviesTableViewController) :
    RecommendedMoviesTableViewController :=
  { c with movies := [], view := c.view.showLoadingView }

def numberOfRows (c : RecommendedMoviesTableViewController) : Nat := c.movies.length

def cellValues (movie : RecommendedMovie) : CellValues where
  movieImage := movie.poster.getD ""
  movieTitle := movie.title.getD ""
  movieYear := movie.year.getD ""

/-- `none` is an index out of range. -/
def cellForRowAt (c : RecommendedMoviesTableViewController) (row : Nat) :
    Option (Option CellValues) :=
  c.movies[row]?.map fun movie => some (cellValues movie)

def didSelectRowAt (c : RecommendedMoviesTableViewController) (row : Nat) :
    Option (Option String) :=
  c.movies[row]?.map fun movie => some (movie.imdb.getD "0")

def success (c : RecommendedMoviesTableViewController) (movies : Option (List RecommendedMovie)) :
    RecommendedMoviesTableViewController :=
  let c := { c with movies := movies.getD [] }
  { c with reloaded := c.movies, rebuilds := c.rebuilds + 1 }

/-- The screen shows its own text and not the error. -/
def failed (c : RecommendedMoviesTableViewController) (_error : String) :
    RecommendedMoviesTableViewController :=
  { c with alerts := "Info" :: c.alerts }

/-- The callback of `RecommendedMoviesPresenter.getRecommendedMovies`, with `error!`. -/
def getRecommendedMoviesCallback (c : RecommendedMoviesTableViewController)
    (callback : ModelCallback (List RecommendedMovie)) :
    Option RecommendedMoviesTableViewController :=
  let c := { c with view := c.view.removeLoadingView }
  if callback.isSuccessful then
    some (c.success callback.success)
  else
    callback.fail.map c.failed

/-- The two closures that `RecommendedModel.getRecommendedMovies` passes to `observe`. -/
def deliver (c : RecommendedMoviesTableViewController) :
    ObserverEvent -> Option RecommendedMoviesTableViewController
  | .value snapshot =>
      let c := { c with modelMovies := getRecommendedMovies snapshot.root }
      c.getRecommendedMoviesCallback
        { isSuccessful := true, success := some c.modelMovies, fail := none }
  | .cancelled error =>
      c.getRecommendedMoviesCallback
        { isSuccessful := false, success := some [], fail := some error }

/-!
## What a delivery does
-/

def rebuilt (c : RecommendedMoviesTableViewController) (snapshot : Database) :
    RecommendedMoviesTableViewController :=
  { c with
    movies := getRecommendedMovies snapshot.root
    reloaded := getRecommendedMovies snapshot.root
    modelMovies := getRecommendedMovies snapshot.root
    rebuilds := c.rebuilds + 1
    view := c.view.removeLoadingView }

def alerted (c : RecommendedMoviesTableViewController) : RecommendedMoviesTableViewController :=
  { c with alerts := "Info" :: c.alerts, view := c.view.removeLoadingView }

def RowsSafe (c : RecommendedMoviesTableViewController) : Prop :=
  TableRows.RowsSafe cellValues (fun movie => movie.imdb.getD "0") c.cellForRowAt
    c.didSelectRowAt c.movies c.reloaded

theorem rowsSafe_of_reloaded {c : RecommendedMoviesTableViewController}
    (h : c.reloaded = c.movies) : c.RowsSafe := by
  unfold RowsSafe
  rw [h]
  apply TableRows.rowsSafe_self
  · intro row movie hmovie
    simp only [cellForRowAt, hmovie, Option.map_some]
  · intro row movie hmovie
    simp only [didSelectRowAt, hmovie, Option.map_some]

theorem rowsSafe_viewDidAppear_iff (c : RecommendedMoviesTableViewController) :
    c.viewDidAppear.RowsSafe <-> c.reloaded = [] := by
  constructor
  · exact fun h => TableRows.rowsSafe_of_empty_backing h
  · intro h
    have hreloaded : c.viewDidAppear.reloaded = [] := h
    unfold RowsSafe
    rw [hreloaded]
    exact TableRows.rowsSafe_nil _

end RecommendedMoviesTableViewController
end Recommended
end MyMovies
