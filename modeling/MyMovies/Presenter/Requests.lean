import MyMovies.Search.MovieController
import MyMovies.View.MovieDetailController

/-!
# Requests from the presenters to the network and back

The callbacks of `ApiManager.get`, of the models and of the presenters, as the
source nests them: each layer is given what to do with its outcome and says
itself which outcome that is.  A controller is anything with the two methods of
its delegate, over a state of any type; `none` is a trap of a method.
-/

namespace MyMovies
namespace Presenter

open Network Storage Search View

structure Environment where
  baseUrl : String

abbrev Parameters := List (String × String)

structure Request where
  url : String
  parameters : Parameters

variable {Dto State : Type}

/-!
## The network and the models
-/

/-- Alamofire, which answers any request in any way, and the language of the texts. -/
structure ApiManager where
  request : Request -> DataResponse
  locale : AppLocale

/-- The response handler runs once, with the response of the request. -/
def ApiManager.responseJSON (apiManager : ApiManager) (request : Request)
    (handler : DataResponse -> State -> Option State) : State -> Option State :=
  handler (apiManager.request request)

def ApiManager.get (apiManager : ApiManager) (url : String) (parameters : Parameters)
    (apiCallback : Bool -> Option JSON -> String -> State -> Option State) :
    State -> Option State :=
  apiManager.responseJSON { url := url, parameters := parameters } fun response =>
    match response with
    | .success statusCode data =>
        if 200 ≤ statusCode ∧ statusCode ≤ 300 then
          apiCallback true (some data) ""
        else
          apiCallback false none (NSLocalizedString apiManager.locale .networkError2)
    | .failure => apiCallback false none (NSLocalizedString apiManager.locale .networkError)

/-- The body shared by `getMovies` and `getMovieDetail`. -/
def ApiManager.getDto (apiManager : ApiManager) (mapping : Fields -> Dto)
    (environment : Environment) (parameters : Parameters)
    (callBacks : Bool -> Option Dto -> Option String -> State -> Option State) :
    State -> Option State :=
  apiManager.get environment.baseUrl parameters fun isSuccessful json error =>
    if isSuccessful then
      match mapObject mapping json with
      | some jsonResponse => callBacks true (some jsonResponse) none
      | none => callBacks false none (some error)
    else
      callBacks false none (some error)

structure MoviesModel where
  apiManager : ApiManager

def MoviesModel.getMovies (model : MoviesModel) (environment : Environment)
    (parameters : Parameters)
    (callBacks : Bool -> Option MovieDto -> Option String -> State -> Option State) :
    State -> Option State :=
  model.apiManager.getDto MovieDto.mapping environment parameters callBacks

structure MovieDetailModel where
  apiManager : ApiManager

def MovieDetailModel.getMovieDetail (model : MovieDetailModel) (environment : Environment)
    (parameters : Parameters)
    (callBacks : Bool -> Option MovieDetailDto -> Option String -> State -> Option State) :
    State -> Option State :=
  model.apiManager.getDto MovieDetailDto.mapping environment parameters callBacks

/-!
## The presenters
-/

/-- The methods of a controller that the outcome of a request reaches. -/
structure ControllerDelegate (Dto State : Type) where
  successSearch : Option Dto -> State -> Option State
  failed : String -> State -> Option State

/-- The callback shared by `searchMovie` and `getMovieDetail`, with `error!`. -/
def ControllerDelegate.callBacks (ui : ControllerDelegate Dto State) (isSuccess : Bool)
    (dto : Option Dto) (error : Option String) (s : State) : Option State :=
  if isSuccess then
    ui.successSearch dto s
  else
    error.bind fun error => ui.failed error s

structure MoviesPresenter (State : Type) where
  movieController : ControllerDelegate MovieDto State
  model : Option MoviesModel

def MoviesPresenter.init (apiManager : ApiManager) (ui : ControllerDelegate MovieDto State) :
    MoviesPresenter State where
  movieController := ui
  model := some { apiManager := apiManager }

def MoviesPresenter.searchMovie (presenter : MoviesPresenter State)
    (environment : Environment) (parameters : Parameters) : State -> Option State :=
  match presenter.model with
  | none => some
  | some model => model.getMovies environment parameters presenter.movieController.callBacks

structure MovieDetailPresenter (State : Type) where
  movieDetailController : ControllerDelegate MovieDetailDto State
  model : Option MovieDetailModel

def MovieDetailPresenter.init (apiManager : ApiManager)
    (ui : ControllerDelegate MovieDetailDto State) : MovieDetailPresenter State where
  movieDetailController := ui
  model := some { apiManager := apiManager }

def MovieDetailPresenter.getMovieDetail (presenter : MovieDetailPresenter State)
    (environment : Environment) (parameters : Parameters) : State -> Option State :=
  match presenter.model with
  | none => some
  | some model =>
      model.getMovieDetail environment parameters presenter.movieDetailController.callBacks

/-!
## Calls of a controller
-/

/-- A call that a presenter makes on its controller. -/
inductive ControllerCall (Dto : Type) where
  | successSearch (dto : Option Dto)
  | failed (error : String)
deriving DecidableEq, Repr

def ControllerDelegate.perform (ui : ControllerDelegate Dto State) :
    ControllerCall Dto -> State -> Option State
  | .successSearch dto => ui.successSearch dto
  | .failed error => ui.failed error

def recorder : ControllerDelegate Dto (List (ControllerCall Dto)) where
  successSearch dto calls := some (calls ++ [.successSearch dto])
  failed error calls := some (calls ++ [.failed error])

/-- What the callback of a model says, as a call on the controller. -/
def callOf (callback : ModelCallback Dto) : Option (ControllerCall Dto) :=
  if callback.isSuccessful then
    some (.successSearch callback.success)
  else
    callback.fail.map .failed

def outcome (mapping : Fields -> Dto) (locale : AppLocale) :
    DataResponse -> ControllerCall Dto
  | .success statusCode data =>
      if 200 ≤ statusCode ∧ statusCode ≤ 300 then
        match asObject data with
        | some fields => .successSearch (some (mapping fields))
        | none => .failed ""
      else
        .failed (NSLocalizedString locale .networkError2)
  | .failure => .failed (NSLocalizedString locale .networkError)

/-!
## One call for each request
-/

section Calls

variable (apiManager : ApiManager) (environment : Environment) (parameters : Parameters)

def ApiManager.answer : DataResponse :=
  apiManager.request { url := environment.baseUrl, parameters := parameters }

theorem callOf_modelCallback (mapping : Fields -> Dto) (locale : AppLocale)
    (r : DataResponse) :
    callOf (modelCallback mapping (Network.ApiManager.get locale r)) =
      some (outcome mapping locale r) := by
  cases r with
  | failure => rfl
  | success statusCode data =>
      by_cases hstatus : 200 ≤ statusCode ∧ statusCode ≤ 300
      · simp only [Network.ApiManager.get, outcome, if_pos hstatus]
        cases hdata : asObject data with
        | none => simp [callOf, modelCallback, mapObject, hdata]
        | some fields => simp [callOf, modelCallback, mapObject, hdata]
      · simp only [Network.ApiManager.get, outcome, if_neg hstatus]
        rfl

theorem getDto_callBacks (mapping : Fields -> Dto) (ui : ControllerDelegate Dto State)
    (s : State) :
    apiManager.getDto mapping environment parameters ui.callBacks s =
      ui.perform
        (outcome mapping apiManager.locale (apiManager.answer environment parameters)) s := by
  simp only [ApiManager.getDto, ApiManager.get, ApiManager.responseJSON, ApiManager.answer]
  cases apiManager.request { url := environment.baseUrl, parameters := parameters } with
  | failure => rfl
  | success statusCode data =>
      by_cases hstatus : 200 ≤ statusCode ∧ statusCode ≤ 300
      · simp only [outcome, if_pos hstatus, mapObject, Option.bind_some]
        cases asObject data with
        | none => rfl
        | some fields => rfl
      · simp only [outcome, if_neg hstatus]
        rfl

theorem searchMovie_eq_perform (ui : ControllerDelegate MovieDto State) (s : State) :
    (MoviesPresenter.init apiManager ui).searchMovie environment parameters s =
      ui.perform (outcome MovieDto.mapping apiManager.locale
        (apiManager.answer environment parameters)) s :=
  getDto_callBacks apiManager environment parameters MovieDto.mapping ui s

theorem getMovieDetail_eq_perform (ui : ControllerDelegate MovieDetailDto State) (s : State) :
    (MovieDetailPresenter.init apiManager ui).getMovieDetail environment parameters s =
      ui.perform (outcome MovieDetailDto.mapping apiManager.locale
        (apiManager.answer environment parameters)) s :=
  getDto_callBacks apiManager environment parameters MovieDetailDto.mapping ui s

end Calls

/-!
## The two screens as controllers
-/

section Screens

variable (apiManager : ApiManager) (environment : Environment) (parameters : Parameters)

def movieControllerDelegate : ControllerDelegate MovieDto MovieController where
  successSearch movies c := some (c.successSearch movies)
  failed error c := some (c.failed error)

def movieDetailControllerDelegate (urlFromString : String -> Option URL)
    (s : StorageService) (countReply : CoreDataReply) :
    ControllerDelegate MovieDetailDto MovieDetailController where
  successSearch movieDetail c := c.successSearch urlFromString s movieDetail countReply
  failed error c := some (c.failed error)

theorem searchMovieCallback_eq (c : MovieController) (callback : ModelCallback MovieDto) :
    c.searchMovieCallback callback =
      (callOf callback).bind fun call => movieControllerDelegate.perform call c := by
  unfold MovieController.searchMovieCallback callOf
  cases callback.isSuccessful with
  | true => rfl
  | false =>
      cases callback.fail with
      | none => rfl
      | some error => rfl

theorem getMovieDetailCallback_eq (urlFromString : String -> Option URL)
    (s : StorageService) (countReply : CoreDataReply) (c : MovieDetailController)
    (callback : ModelCallback MovieDetailDto) :
    c.getMovieDetailCallback urlFromString s callback countReply =
      (callOf callback).bind fun call =>
        (movieDetailControllerDelegate urlFromString s countReply).perform call c := by
  unfold MovieDetailController.getMovieDetailCallback callOf
  cases callback.isSuccessful with
  | true => rfl
  | false =>
      cases callback.fail with
      | none => rfl
      | some error => rfl

/-- The callback of the search screen is the presenter over the screen. -/
theorem searchMovie_eq_searchMovieCallback (c : MovieController) :
    (MoviesPresenter.init apiManager movieControllerDelegate).searchMovie environment
        parameters c =
      c.searchMovieCallback (Network.MoviesModel.getMovies apiManager.locale
        (apiManager.answer environment parameters)) := by
  rw [searchMovie_eq_perform, searchMovieCallback_eq, Network.MoviesModel.getMovies,
    callOf_modelCallback, Option.bind_some]

theorem getMovieDetail_eq_getMovieDetailCallback (urlFromString : String -> Option URL)
    (s : StorageService) (countReply : CoreDataReply) (c : MovieDetailController) :
    (MovieDetailPresenter.init apiManager
        (movieDetailControllerDelegate urlFromString s countReply)).getMovieDetail environment
          parameters c =
      c.getMovieDetailCallback urlFromString s (Network.MovieDetailModel.getMovieDetail
        apiManager.locale (apiManager.answer environment parameters)) countReply := by
  rw [getMovieDetail_eq_perform, getMovieDetailCallback_eq,
    Network.MovieDetailModel.getMovieDetail, callOf_modelCallback, Option.bind_some]

end Screens

/-!
## Which responses are classified correctly
-/

/-- The body of a response with a 2xx status, if it is an object. -/
def acceptedBody : DataResponse -> Option Fields
  | .success statusCode data =>
      if 200 ≤ statusCode ∧ statusCode ≤ 299 then asObject data else none
  | .failure => none

/-- What the user is owed for a response: its DTO or a message. -/
def Owed (mapping : Fields -> Dto) (r : DataResponse) (call : ControllerCall Dto) : Prop :=
  match acceptedBody r with
  | some fields => call = .successSearch (some (mapping fields))
  | none => exists error, error ≠ "" ∧ call = .failed error

/-- The controller is called exactly once, with the call that the response asks for. -/
def Classified (mapping : Fields -> Dto) (r : DataResponse)
    (calls : Option (List (ControllerCall Dto))) : Prop :=
  exists call, calls = some [call] ∧ Owed mapping r call

/-- No response has status 300 and every 2xx response has an object as its body. -/
def Classifiable : DataResponse -> Prop
  | .failure => True
  | .success statusCode data =>
      statusCode ≠ 300 ∧
        (200 ≤ statusCode -> statusCode ≤ 299 -> exists fields, data = .object fields)

theorem NSLocalizedString_ne_empty (locale : AppLocale) (key : NetworkErrorKey) :
    NSLocalizedString locale key ≠ "" := by
  cases locale with
  | en => cases key <;> decide
  | es => cases key <;> decide

theorem asObject_eq_some_iff {data : JSON} {fields : Fields} :
    asObject data = some fields <-> data = .object fields := by
  cases data <;> simp [asObject]

theorem acceptedBody_of_not_2xx {statusCode : Int} (data : JSON)
    (hstatus : ¬ (200 ≤ statusCode ∧ statusCode ≤ 299)) :
    acceptedBody (.success statusCode data) = none := if_neg hstatus

theorem owed_failed_iff {mapping : Fields -> Dto} {r : DataResponse} {error : String}
    (hbody : acceptedBody r = none) :
    Owed mapping r (.failed error) <-> error ≠ "" := by
  rw [Owed, hbody]
  constructor
  · intro howed
    rcases howed with ⟨error', hne, hcall⟩
    cases hcall
    exact hne
  · intro hne
    exact ⟨error, hne, rfl⟩

section Owed

variable (mapping : Fields -> Dto) (locale : AppLocale) {statusCode : Int} (data : JSON)

theorem owed_failure : Owed mapping .failure (outcome mapping locale .failure) :=
  (owed_failed_iff rfl).mpr (NSLocalizedString_ne_empty locale .networkError)

theorem owed_other_status (hstatus : ¬ (200 ≤ statusCode ∧ statusCode ≤ 300)) :
    Owed mapping (.success statusCode data)
      (outcome mapping locale (.success statusCode data)) := by
  have hnot2xx : ¬ (200 ≤ statusCode ∧ statusCode ≤ 299) := by omega
  have hbody := acceptedBody_of_not_2xx data hnot2xx
  simp only [outcome, if_neg hstatus]
  exact (owed_failed_iff hbody).mpr (NSLocalizedString_ne_empty locale .networkError2)

/-- Status 300 passes the test of `ApiManager.get` and is no 2xx status. -/
theorem not_owed_300 :
    ¬ Owed mapping (.success 300 data) (outcome mapping locale (.success 300 data)) := by
  intro howed
  have hnot2xx : ¬ (200 ≤ (300 : Int) ∧ (300 : Int) ≤ 299) := by decide
  have hbody := acceptedBody_of_not_2xx data hnot2xx
  cases hdata : asObject data with
  | none =>
      simp only [outcome, hdata] at howed
      exact (owed_failed_iff hbody).mp howed rfl
  | some fields =>
      simp only [outcome, hdata, Owed, hbody] at howed
      rcases howed with ⟨error, _, hcall⟩
      cases hcall

theorem owed_2xx_iff (hlow : 200 ≤ statusCode) (hhigh : statusCode ≤ 299) :
    Owed mapping (.success statusCode data)
        (outcome mapping locale (.success statusCode data)) <->
      exists fields, data = .object fields := by
  have hbody : acceptedBody (.success statusCode data) = asObject data := if_pos ⟨hlow, hhigh⟩
  have hstatus : 200 ≤ statusCode ∧ statusCode ≤ 300 := by omega
  cases hdata : asObject data with
  | none =>
      rw [hdata] at hbody
      simp only [outcome, if_pos hstatus, hdata]
      constructor
      · intro howed
        exact absurd rfl ((owed_failed_iff hbody).mp howed)
      · intro hobject
        rcases hobject with ⟨fields, hfields⟩
        rw [asObject_eq_some_iff.mpr hfields] at hdata
        cases hdata
  | some fields =>
      simp only [outcome, if_pos hstatus, Owed, hbody, hdata]
      exact iff_of_true trivial ⟨fields, asObject_eq_some_iff.mp hdata⟩

theorem owed_outcome_iff (r : DataResponse) :
    Owed mapping r (outcome mapping locale r) <-> Classifiable r := by
  cases r with
  | failure => exact iff_of_true (owed_failure mapping locale) trivial
  | success statusCode data =>
      have hregion : ¬ (200 ≤ statusCode ∧ statusCode ≤ 300) ∨ statusCode = 300 ∨
          (200 ≤ statusCode ∧ statusCode ≤ 299) := by omega
      rcases hregion with hother | h300 | ⟨hlow, hhigh⟩
      · refine iff_of_true (owed_other_status mapping locale data hother) ⟨?_, ?_⟩
        · omega
        · omega
      · rw [h300]
        exact iff_of_false (not_owed_300 mapping locale data) fun h => h.left rfl
      · rw [owed_2xx_iff mapping locale data hlow hhigh]
        constructor
        · intro hobject
          exact ⟨by omega, fun _ _ => hobject⟩
        · intro h
          exact h.right hlow hhigh

theorem classified_outcome_iff (r : DataResponse) :
    Classified mapping r (recorder.perform (outcome mapping locale r) []) <->
      Classifiable r := by
  have hcalls : recorder.perform (outcome mapping locale r) [] =
      some [outcome mapping locale r] := by
    cases outcome mapping locale r with
    | successSearch dto => rfl
    | failed error => rfl
  rw [← owed_outcome_iff mapping locale, hcalls]
  constructor
  · intro hclassified
    rcases hclassified with ⟨call, hcall, howed⟩
    cases hcall
    exact howed
  · intro howed
    exact ⟨_, rfl, howed⟩

end Owed

def searchCalls (apiManager : ApiManager) (environment : Environment)
    (parameters : Parameters) : Option (List (ControllerCall MovieDto)) :=
  (MoviesPresenter.init apiManager recorder).searchMovie environment parameters []

def detailCalls (apiManager : ApiManager) (environment : Environment)
    (parameters : Parameters) : Option (List (ControllerCall MovieDetailDto)) :=
  (MovieDetailPresenter.init apiManager recorder).getMovieDetail environment parameters []

/-- Search and detail requests are classified exactly on the classifiable responses. -/
theorem request_outcomes_classified_iff (apiManager : ApiManager) (environment : Environment)
    (parameters : Parameters) :
    (Classified MovieDto.mapping (apiManager.answer environment parameters)
        (searchCalls apiManager environment parameters) <->
      Classifiable (apiManager.answer environment parameters)) ∧
    (Classified MovieDetailDto.mapping (apiManager.answer environment parameters)
        (detailCalls apiManager environment parameters) <->
      Classifiable (apiManager.answer environment parameters)) := by
  rw [searchCalls, detailCalls, searchMovie_eq_perform, getMovieDetail_eq_perform]
  exact ⟨classified_outcome_iff _ _ _, classified_outcome_iff _ _ _⟩

def answering (r : DataResponse) : ApiManager where
  request _ := r
  locale := .en

/-- A 2xx body that is no object fails without a message, and status 300 succeeds. -/
theorem request_outcomes_misclassified :
    searchCalls (answering (.success 200 .null)) ⟨"http://www.omdbapi.com/"⟩
        [("s", "Heat")] = some [.failed ""] ∧
    detailCalls (answering (.success 300 (.object []))) ⟨"http://www.omdbapi.com/"⟩
        [("i", "tt0113277")] = some [.successSearch (some (MovieDetailDto.mapping []))] ∧
    ¬ Classified MovieDto.mapping (.success 200 .null)
      (searchCalls (answering (.success 200 .null)) ⟨"http://www.omdbapi.com/"⟩
        [("s", "Heat")]) ∧
    ¬ Classified MovieDetailDto.mapping (.success 300 (.object []))
      (detailCalls (answering (.success 300 (.object []))) ⟨"http://www.omdbapi.com/"⟩
        [("i", "tt0113277")]) := by
  refine ⟨rfl, rfl, ?_, ?_⟩
  · intro hclassified
    rcases hclassified with ⟨call, hcall, error, hne, howed⟩
    cases hcall
    cases howed
    exact hne rfl
  · intro hclassified
    rcases hclassified with ⟨call, hcall, error, _, howed⟩
    cases hcall
    cases howed

end Presenter
end MyMovies
