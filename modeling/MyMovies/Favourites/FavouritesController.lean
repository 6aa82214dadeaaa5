import MyMovies.Foundation.Runs
import MyMovies.Foundation.TableRows
import MyMovies.Loader.LoaderManager
import MyMovies.Storage.StorageService
import MyMovies.View.Utilities

/-!
# The favourites screen

`FavouritesController` with its presenter, after `viewDidLoad`.  The screen
fetches the favourites each time it appears, and the answer comes before
`viewDidAppear` returns.  A `nil` string of a record reads as the empty string.
-/

namespace MyMovies
namespace Favourites

open Foundation Network Storage Loader View

structure FavouritesController where
  favouritesMovies : Option (List MovieEntity)
  /-- The elements the table counted at its last reload. -/
  reloaded : List MovieEntity
  pushed : List String
  alerts : List String
  view : LoaderView

namespace FavouritesController

def initial : FavouritesController where
  favouritesMovies := none
  reloaded := []
  pushed := []
  alerts := []
  view := LoaderView.initial

def numberOfRows (c : FavouritesController) : Nat :=
  match c.favouritesMovies with
  | none => 0
  | some favouritesMovies => favouritesMovies.length

def cellValues (movie : MovieEntity) : CellValues where
  movieImage := movie.poster.getD ""
  movieTitle := movie.title.getD ""
  movieYear := movie.year.getD ""

/-- `none` is an index out of range; an empty cell has no values. -/
def cellForRowAt (c : FavouritesController) (row : Nat) : Option (Option CellValues) :=
  match c.favouritesMovies with
  | none => some none
  | some favouritesMovies => favouritesMovies[row]?.map fun movie => some (cellValues movie)

def didSelectRowAt (c : FavouritesController) (row : Nat) : Option (Option String) :=
  match c.favouritesMovies with
  | none => some none
  | some favouritesMovies => favouritesMovies[row]?.map fun movie => some (movie.imdbID.getD "")

def rows (c : FavouritesController) : List MovieEntity := c.favouritesMovies.getD []

theorem numberOfRows_eq (c : FavouritesController) : c.numberOfRows = c.rows.length := by
  unfold numberOfRows rows
  cases c.favouritesMovies <;> rfl

def success (c : FavouritesController) (movies : Option (List MovieEntity)) :
    FavouritesController :=
  let c := { c with view := c.view.removeLoadingView }
  match movies with
  | none => c
  | some movies => { c with favouritesMovies := some movies, reloaded := movies }

def failed (c : FavouritesController) (error : String) : FavouritesController :=
  { c with alerts := error :: c.alerts }

/-- `presenter?.getFavouritesMovies`, with `error!`. -/
def getFavouritesMovies (c : FavouritesController) (s : StorageService) (reply : CoreDataReply) :
    Option FavouritesController :=
  let callback := FavouritesModel.getFavourites s reply
  if callback.isSuccessful then
    some (c.success callback.success)
  else
    callback.fail.map c.failed

inductive Event where
  /-- The screen appears over a store, whose query is answered or throws. -/
  | viewDidAppear (s : StorageService) (reply : CoreDataReply)
  | cellForRow (row : Nat)
  | didSelectRow (row : Nat)
  | mainLoop (e : LoaderView.MainLoopEvent)

/-- The table asks only for rows that it counted at its last reload. -/
def step (c : FavouritesController) : Event -> Option FavouritesController
  | .viewDidAppear s reply => c.getFavouritesMovies s reply
  | .cellForRow row =>
      if row < c.reloaded.length then
        (c.cellForRowAt row).map fun _ => c
      else
        some c
  | .didSelectRow row =>
      if row < c.reloaded.length then
        (c.didSelectRowAt row).map fun imdbID => { c with pushed := imdbID.toList ++ c.pushed }
      else
        some c
  | .mainLoop e => some { c with view := c.view.mainLoop e }

/-- The table has the count that it would read now, and every row below it is answered. -/
structure RowsSafe (c : FavouritesController) : Prop where
  count : c.reloaded.length = c.numberOfRows
  answered : TableRows.RowsSafe cellValues (fun movie => movie.imdbID.getD "") c.cellForRowAt
    c.didSelectRowAt c.rows c.reloaded

/-- The table shows the list that the screen holds. -/
def TableCurrent (c : FavouritesController) : Prop := c.reloaded = c.rows

theorem rowsSafe_of_tableCurrent {c : FavouritesController} (h : c.TableCurrent) :
    c.RowsSafe := by
  have hcurrent : c.reloaded = c.rows := h
  refine ⟨by rw [hcurrent, numberOfRows_eq], ?_⟩
  rw [hcurrent]
  apply TableRows.rowsSafe_getD
  · intro movies row hlist
    rw [cellForRowAt, hlist]
  · intro movies row hlist
    rw [didSelectRowAt, hlist]

theorem getFavouritesMovies_cases (c : FavouritesController) (s : StorageService)
    (reply : CoreDataReply) :
    (exists movies, c.getFavouritesMovies s reply = some (c.success (some movies))) ∨
      c.getFavouritesMovies s reply = some (c.failed "error") := by
  cases reply with
  | answers => exact Or.inl ⟨_, rfl⟩
  | throws error => exact Or.inr rfl

theorem tableCurrent_step {c : FavouritesController} (h : c.TableCurrent) (e : Event) :
    exists c', c.step e = some c' ∧ c'.TableCurrent := by
  have hsafe := rowsSafe_of_tableCurrent h
  cases e with
  | viewDidAppear s reply =>
      rcases getFavouritesMovies_cases c s reply with ⟨movies, heq⟩ | heq
      · exact ⟨_, heq, rfl⟩
      · exact ⟨_, heq, h⟩
  | cellForRow row =>
      by_cases hrow : row < c.reloaded.length
      · rcases hsafe.answered row _ (List.getElem?_eq_getElem hrow) with ⟨movie, _, hcell, _⟩
        exact ⟨c, by simp [step, hrow, hcell], h⟩
      · exact ⟨c, by simp [step, hrow], h⟩
  | didSelectRow row =>
      by_cases hrow : row < c.reloaded.length
      · rcases hsafe.answered row _ (List.getElem?_eq_getElem hrow) with ⟨movie, _, _, hselect⟩
        refine ⟨{ c with pushed := c.reloaded[row].imdbID.getD "" :: c.pushed }, ?_, h⟩
        simp only [step, hrow, if_true, hselect, Option.map_some]
        rfl
      · exact ⟨c, by simp [step, hrow], h⟩
  | mainLoop e => exact ⟨_, rfl, h⟩

end FavouritesController
end Favourites
end MyMovies
