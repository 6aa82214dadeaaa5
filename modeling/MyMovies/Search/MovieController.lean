import MyMovies.Foundation.Runs
import MyMovies.Foundation.TableRows
import MyMovies.Loader.LoaderManager
import MyMovies.Network.Pipeline
import MyMovies.View.Utilities

/-!
# The search screen

`MovieController` with its presenter, after `viewDidLoad`.  Every text of more
than three characters and every press of the search button issues a request;
nothing cancels a request or tells its response from another one.  `String.count`
counts grapheme clusters and is a parameter.
-/

namespace MyMovies
namespace Search

open Foundation Network Loader View

structure MovieController where
  searchBarText : String
  showsCancelButton : Bool
  moviesDto : Option MovieDto
  /-- The elements the table counted at its last reload. -/
  reloaded : List SearchDto
  pushed : List String
  alerts : List String
  nextRequest : Nat
  /-- Requests without a response, with the title they ask for. -/
  outstanding : List (Nat × String)
  /-- Responses delivered, the latest first, with the DTO of a success; no code reads it. -/
  answered : List (Nat × Option MovieDto)
  view : LoaderView

namespace MovieController

def initial : MovieController where
  searchBarText := ""
  showsCancelButton := false
  moviesDto := none
  reloaded := []
  pushed := []
  alerts := []
  nextRequest := 0
  outstanding := []
  answered := []
  view := LoaderView.initial

/-!
## Requests
-/

/-- `presenter?.searchMovie` up to the request. -/
def searchMovie (c : MovieController) : MovieController :=
  { c with
    nextRequest := c.nextRequest + 1
    outstanding := c.outstanding ++ [(c.nextRequest, c.searchBarText)] }

def textDidChange (count : String -> Nat) (c : MovieController) (searchText : String) :
    MovieController :=
  let c := { c with searchBarText := searchText, showsCancelButton := true }
  if count searchText > 3 then
    { c with view := c.view.showLoadingView }.searchMovie
  else
    c

def searchButtonClicked (c : MovieController) : MovieController :=
  { c with showsCancelButton := false }.searchMovie

def cancelButtonClicked (c : MovieController) : MovieController :=
  { c with showsCancelButton := false }

/-!
## The table
-/

def numberOfRows (c : MovieController) : Nat :=
  match c.moviesDto.bind MovieDto.search with
  | none => 0
  | some searchDto => searchDto.length

def cellValues (dto : SearchDto) : CellValues where
  movieImage := dto.poster.getD ""
  movieTitle := dto.title.getD ""
  movieYear := dto.year.getD ""

/-- `none` is an index out of range; an empty cell has no values. -/
def cellForRowAt (c : MovieController) (row : Nat) : Option (Option CellValues) :=
  match c.moviesDto.bind MovieDto.search with
  | none => some none
  | some searchDto => searchDto[row]?.map fun dto => some (cellValues dto)

def didSelectRowAt (c : MovieController) (row : Nat) : Option (Option String) :=
  match c.moviesDto.bind MovieDto.search with
  | none => some none
  | some searchDto => searchDto[row]?.map fun dto => some (dto.imdbID.getD "")

def rows (c : MovieController) : List SearchDto :=
  (c.moviesDto.bind MovieDto.search).getD []

def reloadData (c : MovieController) : MovieController :=
  { c with reloaded := c.rows }

theorem numberOfRows_eq (c : MovieController) : c.numberOfRows = c.rows.length := by
  unfold numberOfRows rows
  cases c.moviesDto.bind MovieDto.search <;> rfl

/-!
## Responses
-/

def successSearch (c : MovieController) (movies : Option MovieDto) : MovieController :=
  let c := { c with view := c.view.removeLoadingView }
  match movies with
  | none => c
  | some movies => { c with moviesDto := some movies }.reloadData

def failed (c : MovieController) (error : String) : MovieController :=
  { c with alerts := error :: c.alerts }

/-- The callback of `MoviesPresenter.searchMovie`, with `error!`. -/
def searchMovieCallback (c : MovieController) (callback : ModelCallback MovieDto) :
    Option MovieController :=
  if callback.isSuccessful then
    some (c.successSearch callback.success)
  else
    callback.fail.map c.failed

/-- The response of a request; a request is answered once. -/
def receive (locale : AppLocale) (c : MovieController) (request : Nat) (r : DataResponse) :
    Option MovieController :=
  if request ∈ c.outstanding.map Prod.fst then
    let callback := MoviesModel.getMovies locale r
    { c with
      outstanding := c.outstanding.filter fun p => p.1 != request
      answered := (request, callback.success) :: c.answered }.searchMovieCallback callback
  else
    some c

/-!
## Events
-/

inductive Event where
  | textDidChange (searchText : String)
  | searchButtonClicked
  | cancelButtonClicked
  | response (request : Nat) (r : DataResponse)
  | cellForRow (row : Nat)
  | didSelectRow (row : Nat)
  | mainLoop (e : LoaderView.MainLoopEvent)

/-- The table asks only for rows that it counted at its last reload. -/
def step (count : String -> Nat) (locale : AppLocale) (c : MovieController) :
    Event -> Option MovieController
  | .textDidChange searchText => some (c.textDidChange count searchText)
  | .searchButtonClicked => some c.searchButtonClicked
  | .cancelButtonClicked => some c.cancelButtonClicked
  | .response request r => c.receive locale request r
  | .cellForRow row =>
      if row < c.reloaded.length then
        (c.cellForRowAt row).map fun _ => c
      else
        some c
  | .didSelectRow row =>
      if row < c.reloaded.length then
        (c.didSelectRowAt row).map fun imdbID => { c with pushed := imdbID.toList ++ c.pushed }
      else
        some c
  | .mainLoop e => some { c with view := c.view.mainLoop e }

/-!
## What a response does
-/

def answeredWith (c : MovieController) (request : Nat) (movies : Option MovieDto) :
    MovieController :=
  { c with
    outstanding := c.outstanding.filter fun p => p.1 != request
    answered := (request, movies) :: c.answered }

theorem receive_cases (locale : AppLocale) (c : MovieController) (request : Nat)
    (r : DataResponse) :
    (request ∉ c.outstanding.map Prod.fst ∧ c.receive locale request r = some c) ∨
    (request ∈ c.outstanding.map Prod.fst ∧ exists dto,
      (MoviesModel.getMovies locale r).success = some dto ∧
        c.receive locale request r =
          some ((c.answeredWith request (some dto)).successSearch (some dto))) ∨
    (request ∈ c.outstanding.map Prod.fst ∧ exists error,
      (MoviesModel.getMovies locale r).success = none ∧
        c.receive locale request r = some ((c.answeredWith request none).failed error)) := by
  by_cases hout : request ∈ c.outstanding.map Prod.fst
  · have heq : c.receive locale request r =
        (c.answeredWith request (MoviesModel.getMovies locale r).success).searchMovieCallback
          (MoviesModel.getMovies locale r) := if_pos hout
    rcases modelCallback_cases MovieDto.mapping (ApiManager.get locale r) with
      ⟨dto, hcall⟩ | ⟨error, hcall⟩
    · have hmodel : MoviesModel.getMovies locale r = _ := hcall
      rw [heq, hmodel]
      exact Or.inr (Or.inl ⟨hout, dto, rfl, rfl⟩)
    · have hmodel : MoviesModel.getMovies locale r = _ := hcall
      rw [heq, hmodel]
      exact Or.inr (Or.inr ⟨hout, error, rfl, rfl⟩)
  · exact Or.inl ⟨hout, if_neg hout⟩

theorem cellForRow_eq {count : String -> Nat} {locale : AppLocale} {c c' : MovieController}
    {row : Nat} (h : c.step count locale (.cellForRow row) = some c') : c' = c := by
  simp only [step] at h
  split at h
  · rcases Option.map_eq_some_iff.mp h with ⟨_, _, rfl⟩
    rfl
  · cases h
    rfl

theorem didSelectRow_eq {count : String -> Nat} {locale : AppLocale} {c c' : MovieController}
    {row : Nat} (h : c.step count locale (.didSelectRow row) = some c') :
    exists pushed, c' = { c with pushed := pushed } := by
  simp only [step] at h
  split at h
  · rcases Option.map_eq_some_iff.mp h with ⟨imdbID, _, rfl⟩
    exact ⟨_, rfl⟩
  · cases h
    exact ⟨c.pushed, rfl⟩

/-!
## The invariant of the screen
-/

def lastSuccess (answered : List (Nat × Option MovieDto)) : Option MovieDto :=
  answered.findSome? Prod.snd

structure Inv (c : MovieController) : Prop where
  table : c.reloaded = c.rows
  shown : c.moviesDto = lastSuccess c.answered
  accounted : forall n, n < c.nextRequest <->
    n ∈ c.outstanding.map Prod.fst ∨ n ∈ c.answered.map Prod.fst
  view : c.view.Inv

theorem inv_initial : Inv initial where
  table := rfl
  shown := rfl
  accounted := by simp [initial]
  view := LoaderView.inv_initial

section Step

variable {c : MovieController}

theorem inv_searchMovie (h : Inv c) : Inv c.searchMovie := by
  refine ⟨h.table, h.shown, ?_, h.view⟩
  intro n
  have hold := h.accounted n
  simp only [searchMovie, List.map_append, List.map_cons, List.map_nil, List.mem_append,
    List.mem_singleton, Nat.lt_succ_iff_lt_or_eq, hold]
  rw [or_right_comm]

theorem inv_textDidChange (h : Inv c) (count : String -> Nat) (searchText : String) :
    Inv (c.textDidChange count searchText) := by
  unfold textDidChange
  split
  · exact inv_searchMovie ⟨h.table, h.shown, h.accounted, LoaderView.inv_showLoader h.view⟩
  · exact ⟨h.table, h.shown, h.accounted, h.view⟩

theorem accounted_answeredWith (h : Inv c) {request : Nat}
    (hout : request ∈ c.outstanding.map Prod.fst) (movies : Option MovieDto) (n : Nat) :
    n < (c.answeredWith request movies).nextRequest <->
      n ∈ (c.answeredWith request movies).outstanding.map Prod.fst ∨
        n ∈ (c.answeredWith request movies).answered.map Prod.fst := by
  have hfilter : n ∈ (c.outstanding.filter fun p => p.1 != request).map Prod.fst <->
      n ∈ c.outstanding.map Prod.fst ∧ n ≠ request := by
    simp only [List.mem_map, List.mem_filter, bne_iff_ne]
    constructor
    · intro hkept
      rcases hkept with ⟨p, ⟨hp, hne⟩, rfl⟩
      exact ⟨⟨p, hp, rfl⟩, hne⟩
    · intro hold
      rcases hold with ⟨⟨p, hp, rfl⟩, hne⟩
      exact ⟨p, ⟨hp, hne⟩, rfl⟩
  simp only [answeredWith, List.map_cons, List.mem_cons, hfilter]
  rw [h.accounted n]
  by_cases hn : n = request
  · simp [hn, hout]
  · simp [hn]

theorem inv_successSearch (h : Inv c) {request : Nat}
    (hout : request ∈ c.outstanding.map Prod.fst) (dto : MovieDto) :
    Inv ((c.answeredWith request (some dto)).successSearch (some dto)) where
  table := rfl
  shown := rfl
  accounted := accounted_answeredWith h hout (some dto)
  view := LoaderView.inv_removeLoadingView h.view

theorem inv_failed (h : Inv c) {request : Nat}
    (hout : request ∈ c.outstanding.map Prod.fst) (error : String) :
    Inv ((c.answeredWith request none).failed error) where
  table := h.table
  shown := h.shown
  accounted := accounted_answeredWith h hout none
  view := h.view

theorem inv_step (count : String -> Nat) (locale : AppLocale) (h : Inv c) (e : Event)
    {c' : MovieController} (hstep : c.step count locale e = some c') : Inv c' := by
  cases e with
  | textDidChange searchText =>
      cases hstep
      exact inv_textDidChange h count searchText
  | searchButtonClicked =>
      cases hstep
      exact inv_searchMovie ⟨h.table, h.shown, h.accounted, h.view⟩
  | cancelButtonClicked =>
      cases hstep
      exact ⟨h.table, h.shown, h.accounted, h.view⟩
  | response request r =>
      rcases receive_cases locale c request r with
        ⟨_, heq⟩ | ⟨hout, dto, _, heq⟩ | ⟨hout, error, _, heq⟩
      · rw [step, heq] at hstep
        cases hstep
        exact h
      · rw [step, heq] at hstep
        cases hstep
        exact inv_successSearch h hout dto
      · rw [step, heq] at hstep
        cases hstep
        exact inv_failed h hout error
  | cellForRow row =>
      rw [cellForRow_eq hstep]
      exact h
  | didSelectRow row =>
      rcases didSelectRow_eq hstep with ⟨pushed, rfl⟩
      exact ⟨h.table, h.shown, h.accounted, h.view⟩
  | mainLoop e =>
      cases hstep
      exact ⟨h.table, h.shown, h.accounted, LoaderView.inv_mainLoop h.view e⟩

end Step

theorem inv_run {count : String -> Nat} {locale : AppLocale} {es : List Event}
    {c : MovieController} (h : Runs.run (step count locale) initial es = some c) : Inv c :=
  Runs.run_invariant (fun _ e _ hc hstep => inv_step count locale hc e hstep) inv_initial h

/-!
## Rows of the table
-/

/-- The table has the count that it would read now, and every row below it is answered. -/
structure RowsSafe (c : MovieController) : Prop where
  count : c.reloaded.length = c.numberOfRows
  answered : TableRows.RowsSafe cellValues (fun dto => dto.imdbID.getD "") c.cellForRowAt
    c.didSelectRowAt c.rows c.reloaded

theorem rowsSafe_of_inv {c : MovieController} (h : Inv c) : c.RowsSafe := by
  refine ⟨by rw [h.table, numberOfRows_eq], ?_⟩
  rw [h.table]
  apply TableRows.rowsSafe_getD
  · intro searchDto row hlist
    rw [cellForRowAt, hlist]
  · intro searchDto row hlist
    rw [didSelectRowAt, hlist]

theorem exists_step (count : String -> Nat) (locale : AppLocale) {c : MovieController}
    (h : Inv c) (e : Event) : exists c', c.step count locale e = some c' := by
  have hsafe := rowsSafe_of_inv h
  cases e with
  | textDidChange searchText => exact ⟨_, rfl⟩
  | searchButtonClicked => exact ⟨_, rfl⟩
  | cancelButtonClicked => exact ⟨_, rfl⟩
  | response request r =>
      rcases receive_cases locale c request r with
        ⟨_, heq⟩ | ⟨_, dto, _, heq⟩ | ⟨_, error, _, heq⟩
      · exact ⟨_, heq⟩
      · exact ⟨_, heq⟩
      · exact ⟨_, heq⟩
  | cellForRow row =>
      by_cases hrow : row < c.reloaded.length
      · rcases hsafe.answered row _ (List.getElem?_eq_getElem hrow) with ⟨dto, _, hcell, _⟩
        exact ⟨c, by simp [step, hrow, hcell]⟩
      · exact ⟨c, by simp [step, hrow]⟩
  | didSelectRow row =>
      by_cases hrow : row < c.reloaded.length
      · rcases hsafe.answered row _ (List.getElem?_eq_getElem hrow) with ⟨dto, _, _, hselect⟩
        refine ⟨{ c with pushed := c.reloaded[row].imdbID.getD "" :: c.pushed }, ?_⟩
        simp only [step, hrow, if_true, hselect, Option.map_some]
        rfl
      · exact ⟨c, by simp [step, hrow]⟩
  | mainLoop e => exact ⟨_, rfl⟩

/-!
## Which result is shown
-/

/-- Successful responses came in the order in which their requests were issued. -/
def InIssueOrder (answered : List (Nat × Option MovieDto)) : Prop :=
  answered.Pairwise fun later earlier =>
    later.2.isSome = true -> earlier.2.isSome = true -> earlier.1 < later.1

theorem lastSuccess_of_split {newer older : List (Nat × Option MovieDto)} {n : Nat}
    {dto : MovieDto} (hnewer : forall a, a ∈ newer -> a.2 = none) :
    lastSuccess (newer ++ (n, some dto) :: older) = some dto := by
  have hnone : newer.findSome? Prod.snd = none := List.findSome?_eq_none_iff.mpr hnewer
  rw [lastSuccess, List.findSome?_append, hnone]
  rfl

theorem lastSuccess_of_inIssueOrder {answered : List (Nat × Option MovieDto)} {n : Nat}
    {dto : MovieDto} (horder : InIssueOrder answered) (hmem : (n, some dto) ∈ answered)
    (hnewest : forall n' dto', (n', some dto') ∈ answered -> n' ≤ n) :
    lastSuccess answered = some dto := by
  rcases List.append_of_mem hmem with ⟨newer, older, rfl⟩
  apply lastSuccess_of_split
  intro a ha
  cases hvalue : a.2 with
  | none => rfl
  | some dto' =>
      have hlater := (List.pairwise_append.mp horder).right.right a ha (n, some dto)
        List.mem_cons_self (by rw [hvalue]; rfl) rfl
      have hpair : a = (a.1, some dto') := by rw [← hvalue]
      have hle := hnewest a.1 dto' (List.mem_append_left _ (hpair ▸ ha))
      exact absurd hlater (Nat.not_lt.mpr hle)

/-- The result on screen, as far as the order of delivery determines it. -/
structure ShowsLastDelivered (c : MovieController) : Prop where
  delivered_last : c.moviesDto = lastSuccess c.answered ∧ c.reloaded = c.rows
  /-- A result stays on screen until another success is delivered. -/
  not_overtaken : forall newer older n dto, c.answered = newer ++ (n, some dto) :: older ->
    (forall a, a ∈ newer -> a.2 = none) ->
      c.moviesDto = some dto ∧ c.reloaded = dto.search.getD []
  /-- In issue order no older result replaces a newer one. -/
  in_order : InIssueOrder c.answered -> forall n dto, (n, some dto) ∈ c.answered ->
    (forall n' dto', (n', some dto') ∈ c.answered -> n' ≤ n) ->
      c.moviesDto = some dto ∧ c.reloaded = dto.search.getD []
  /-- In issue order the most recent request wins once all are answered. -/
  most_recent : InIssueOrder c.answered -> c.outstanding = [] -> forall n dto,
    n + 1 = c.nextRequest -> (n, some dto) ∈ c.answered ->
      c.moviesDto = some dto ∧ c.reloaded = dto.search.getD []

theorem shows_last_delivered (count : String -> Nat) (locale : AppLocale) (es : List Event)
    (c : MovieController) (h : Runs.run (step count locale) initial es = some c) :
    ShowsLastDelivered c := by
  have hinv := inv_run h
  have hshows : forall dto, lastSuccess c.answered = some dto ->
      c.moviesDto = some dto ∧ c.reloaded = dto.search.getD [] := by
    intro dto hlast
    have hdto : c.moviesDto = some dto := hinv.shown.trans hlast
    refine ⟨hdto, ?_⟩
    rw [hinv.table, rows, hdto]
    rfl
  refine ⟨⟨hinv.shown, hinv.table⟩, ?_, ?_, ?_⟩
  · intro newer older n dto hsplit hnewer
    apply hshows
    rw [hsplit]
    exact lastSuccess_of_split hnewer
  · intro horder n dto hmem hnewest
    exact hshows dto (lastSuccess_of_inIssueOrder horder hmem hnewest)
  · intro horder _ n dto hn hmem
    apply hshows dto (lastSuccess_of_inIssueOrder horder hmem ?_)
    intro n' dto' hmem'
    have hissued : n' < c.nextRequest :=
      (hinv.accounted n').mpr (Or.inr (List.mem_map_of_mem (f := Prod.fst) hmem'))
    omega

def oneHit (title : String) : DataResponse :=
  .success 200 (.object [⟨"Search", .array [.object [⟨"Title", .string title⟩]]⟩])

/-- Two keystrokes, answered in the opposite order. -/
def overtakenRun : List Event :=
  [.textDidChange "star", .textDidChange "star wars", .response 1 (oneHit "Star Wars"),
    .response 0 (oneHit "A Star Is Born")]

theorem shows_last_delivered_overtakenRun :
    exists c, Runs.run (step String.length .en) initial overtakenRun = some c ∧
      ShowsLastDelivered c := by
  rcases Option.isSome_iff_exists.mp (by decide :
    (Runs.run (step String.length .en) initial overtakenRun).isSome = true) with ⟨c, hc⟩
  exact ⟨c, hc, shows_last_delivered _ _ _ c hc⟩

/-- The late response of the older request replaces the result of the newer one. -/
theorem last_query_is_overtaken :
    exists c newest older, Runs.run (step String.length .en) initial overtakenRun = some c ∧
      c.outstanding = [] ∧ c.nextRequest = 2 ∧
      c.answered = [(0, some older), (1, some newest)] ∧ newest ≠ older ∧
      c.moviesDto = some older ∧ c.reloaded = older.search.getD [] ∧
      c.reloaded ≠ newest.search.getD [] := by
  have hrun : (Runs.run (step String.length .en) initial overtakenRun).map (fun c =>
      (c.outstanding, c.nextRequest, c.answered, c.moviesDto, c.reloaded)) =
    some ([], 2,
      [(0, (MoviesModel.getMovies .en (oneHit "A Star Is Born")).success),
        (1, (MoviesModel.getMovies .en (oneHit "Star Wars")).success)],
      (MoviesModel.getMovies .en (oneHit "A Star Is Born")).success,
      [SearchDto.mapping [⟨"Title", .string "A Star Is Born"⟩]]) := rfl
  rcases Option.map_eq_some_iff.mp hrun with ⟨c, hc, hobs⟩
  simp only [Prod.mk.injEq] at hobs
  rcases hobs with ⟨hout, hnext, hanswered, hshown, hrows⟩
  refine ⟨c, { search := some [SearchDto.mapping [⟨"Title", .string "Star Wars"⟩]],
               totalResults := none, response := none },
    { search := some [SearchDto.mapping [⟨"Title", .string "A Star Is Born"⟩]],
      totalResults := none, response := none }, hc, hout, hnext, ?_, ?_, ?_, ?_, ?_⟩
  · rw [hanswered]
    rfl
  · decide
  · rw [hshown]
    rfl
  · rw [hrows]
    rfl
  · rw [hrows]
    decide

end MovieController
end Search
end MyMovies
