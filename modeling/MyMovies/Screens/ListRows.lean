import MyMovies.Favourites.FavouritesController
import MyMovies.Recommended.SharedObservers
import MyMovies.Search.MovieController

/-!
# Rows of the three list screens

The search and favourites screens change their list and reload the table in one
step.  The recommended screen empties its list when it appears and reloads only
when the next snapshot is delivered; in between the table still counts the rows
of the old list.
-/

namespace MyMovies
namespace Screens

open Foundation Firebase Network Favourites Recommended Search

theorem movieController_rows_safe (count : String -> Nat) (locale : AppLocale)
    (es : List MovieController.Event) :
    Runs.Along (MovieController.step count locale) MovieController.RowsSafe
      MovieController.initial es := by
  have hinv : Runs.Along (MovieController.step count locale) MovieController.Inv
      MovieController.initial es := by
    apply Runs.along_of_step _ MovieController.inv_initial
    intro c e hc
    rcases MovieController.exists_step count locale hc e with ⟨c', hstep⟩
    exact ⟨c', hstep, MovieController.inv_step count locale hc e hstep⟩
  exact hinv.imp fun _ hc => MovieController.rowsSafe_of_inv hc

theorem favouritesController_rows_safe (es : List FavouritesController.Event) :
    Runs.Along FavouritesController.step FavouritesController.RowsSafe
      FavouritesController.initial es := by
  have hinitial : FavouritesController.TableCurrent FavouritesController.initial := rfl
  have hcurrent : Runs.Along FavouritesController.step FavouritesController.TableCurrent
      FavouritesController.initial es :=
    Runs.along_of_step (fun _ e hc => FavouritesController.tableCurrent_step hc e) hinitial es
  exact hcurrent.imp fun _ hc => FavouritesController.rowsSafe_of_tableCurrent hc

/-!
## The recommended screen
-/

def RecommendedRowsSafe (s : SharedObservers) : Prop := s.screen.RowsSafe

def AppearsWithoutRows (s : SharedObservers) : SharedObservers.Event -> Prop
  | .viewDidAppear => s.screen.reloaded = []
  | _ => True

section Step

variable {s : SharedObservers}

theorem rowsSafe_register (h : RecommendedRowsSafe s) : RecommendedRowsSafe s.register := by
  unfold SharedObservers.register
  split
  · exact h
  · exact h

theorem rowsSafe_refuse (h : RecommendedRowsSafe s) (error : String) :
    RecommendedRowsSafe (s.refuse error) := by
  unfold SharedObservers.refuse
  split
  · exact h
  · exact h

theorem rowsSafe_deliver (h : RecommendedRowsSafe s) :
    exists s', s.deliver = some s' ∧ RecommendedRowsSafe s' := by
  rcases s.deliver_cases with ⟨_, heq⟩ | ⟨snapshot, rest, _, heq⟩ | ⟨error, rest, _, heq⟩
  · exact ⟨s, heq, h⟩
  · exact ⟨_, heq, RecommendedMoviesTableViewController.rowsSafe_of_reloaded rfl⟩
  · exact ⟨_, heq, h⟩

theorem recommendedRows_step_iff (h : RecommendedRowsSafe s) (e : SharedObservers.Event) :
    (exists s', s.step e = some s' ∧ RecommendedRowsSafe s') <-> AppearsWithoutRows s e := by
  cases e with
  | viewDidAppear =>
      have hiff := RecommendedMoviesTableViewController.rowsSafe_viewDidAppear_iff s.screen
      constructor
      · intro hnext
        rcases hnext with ⟨s', hstep, hsafe⟩
        cases hstep
        exact hiff.mp hsafe
      · intro hempty
        exact ⟨_, rfl, hiff.mpr hempty⟩
  | viewDidDisappear => exact iff_of_true ⟨s, rfl, h⟩ trivial
  | register => exact iff_of_true ⟨_, rfl, rowsSafe_register h⟩ trivial
  | refuse error => exact iff_of_true ⟨_, rfl, rowsSafe_refuse h error⟩ trivial
  | change tree => exact iff_of_true ⟨_, rfl, h⟩ trivial
  | cancel error => exact iff_of_true ⟨_, rfl, h⟩ trivial
  | deliver => exact iff_of_true (rowsSafe_deliver h) trivial
  | cellForRow row =>
      apply iff_of_true _ trivial
      by_cases hrow : row < s.screen.reloaded.length
      · rcases h row _ (List.getElem?_eq_getElem hrow) with ⟨movie, _, hcell, _⟩
        exact ⟨s, by simp [SharedObservers.step, hrow, hcell], h⟩
      · exact ⟨s, by simp [SharedObservers.step, hrow], h⟩
  | didSelectRow row =>
      apply iff_of_true _ trivial
      by_cases hrow : row < s.screen.reloaded.length
      · rcases h row _ (List.getElem?_eq_getElem hrow) with ⟨movie, _, _, hselect⟩
        refine ⟨{ s with screen := { s.screen with
          pushed := (s.screen.reloaded[row].imdb.getD "0") :: s.screen.pushed } }, ?_, h⟩
        simp only [SharedObservers.step, hrow, if_true, hselect, Option.map_some]
        rfl
      · exact ⟨s, by simp [SharedObservers.step, hrow], h⟩
  | mainLoop e => exact iff_of_true ⟨_, rfl, h⟩ trivial

end Step

/--
The rows of the three lists: always safe on the search and favourites screens,
and safe on the recommended screen exactly along the runs in which it never
appears over the rows of an earlier list.
-/
theorem list_rows_safe_iff (count : String -> Nat) (locale : AppLocale) (tree : Database) :
    (forall es, Runs.Along (MovieController.step count locale) MovieController.RowsSafe
      MovieController.initial es) ∧
    (forall es, Runs.Along FavouritesController.step FavouritesController.RowsSafe
      FavouritesController.initial es) ∧
    forall es, Runs.Along SharedObservers.step RecommendedRowsSafe
        (SharedObservers.initial tree) es <->
      Runs.Guarded SharedObservers.step AppearsWithoutRows (SharedObservers.initial tree) es := by
  refine ⟨movieController_rows_safe count locale, favouritesController_rows_safe, ?_⟩
  intro es
  have hinitial : RecommendedRowsSafe (SharedObservers.initial tree) :=
    RecommendedMoviesTableViewController.rowsSafe_of_reloaded rfl
  exact Runs.along_iff_guarded (I := fun _ => True) (fun _ _ _ _ _ _ => trivial)
    (fun _ e _ h => recommendedRows_step_iff h e) trivial hinitial es

/-- One movie is listed, the tab is visited again, and the row is tapped before the next
snapshot. -/
theorem recommended_row_out_of_range :
    exists s, Runs.run SharedObservers.step (SharedObservers.initial SharedObservers.matrixTree)
        [.viewDidAppear, .register, .deliver, .viewDidDisappear, .viewDidAppear] = some s ∧
      s.screen.reloaded.length = 1 ∧ s.step (.didSelectRow 0) = none ∧
      s.step (.cellForRow 0) = none ∧ ¬ RecommendedRowsSafe s := by
  have hrun : (Runs.run SharedObservers.step (SharedObservers.initial SharedObservers.matrixTree)
      [.viewDidAppear, .register, .deliver, .viewDidDisappear, .viewDidAppear]).map (fun s =>
        (s.screen.reloaded.length, (s.step (.didSelectRow 0)).isNone,
          (s.step (.cellForRow 0)).isNone, s.screen.movies)) = some (1, true, true, []) := by
    decide
  rcases Option.map_eq_some_iff.mp hrun with ⟨s, hs, hobs⟩
  simp only [Prod.mk.injEq, Option.isNone_iff_eq_none] at hobs
  rcases hobs with ⟨hlength, hselect, hcell, hmovies⟩
  refine ⟨s, hs, hlength, hselect, hcell, ?_⟩
  intro hsafe
  have hnone : s.screen.reloaded = [] := by
    apply TableRows.rowsSafe_of_empty_backing
    rw [← hmovies]
    exact hsafe
  rw [hnone] at hlength
  cases hlength

end Screens
end MyMovies
