import Mathlib.Data.List.Sigma

/-!
# From HTTP responses to model callbacks

Search and detail requests share one pipeline: `ApiManager.get` classifies the
response of Alamofire, the model maps the body with ObjectMapper, and the
model's callback tells the presenter whether there is a DTO or an error text.
-/

namespace MyMovies
namespace Network

inductive JSON where
  | null
  | bool (b : Bool)
  | number (n : Int)
  | string (s : String)
  | array (elements : List JSON)
  | object (fields : List (Sigma fun _ : String => JSON))

/-- The fields of a JSON object, `[String: Any]`. -/
abbrev Fields := List (Sigma fun _ : String => JSON)

/-!
## Data transfer objects
-/

/-- `left <- map[key]` for an optional string property. -/
def mapString (map : Fields) (key : String) : Option String :=
  match map.dlookup key with
  | some (.string s) => some s
  | _ => none

structure SearchDto where
  title : Option String
  year : Option String
  imdbID : Option String
  type : Option String
  poster : Option String
deriving DecidableEq, Repr

def SearchDto.mapping (map : Fields) : SearchDto where
  title := mapString map "Title"
  year := mapString map "Year"
  imdbID := mapString map "imdbID"
  type := mapString map "Type"
  poster := mapString map "Poster"

structure MovieDto where
  search : Option (List SearchDto)
  totalResults : Option String
  response : Option String
deriving DecidableEq, Repr

def asObject : JSON -> Option Fields
  | .object fields => some fields
  | _ => none

/-- `mapArray(JSONObject:)`: every element of the array must be an object. -/
def mapArray (map : Fields) (key : String) : Option (List SearchDto) :=
  match map.dlookup key with
  | some (.array elements) => (elements.mapM asObject).map (List.map SearchDto.mapping)
  | _ => none

def MovieDto.mapping (map : Fields) : MovieDto where
  search := mapArray map "Search"
  totalResults := mapString map "totalResults"
  response := mapString map "Response"

structure MovieDetailDto where
  title : Option String
  year : Option String
  rated : Option String
  released : Option String
  runtime : Option String
  genre : Option String
  director : Option String
  writer : Option String
  actors : Option String
  plot : Option String
  language : Option String
  country : Option String
  awards : Option String
  poster : Option String
  metascore : Option String
  imdbRating : Option String
  imdbVotes : Option String
  imdbID : Option String
  type : Option String
  dVD : Option String
  boxOffice : Option String
  production : Option String
  website : Option String
  response : Option String
deriving DecidableEq, Repr

def MovieDetailDto.mapping (map : Fields) : MovieDetailDto where
  title := mapString map "Title"
  year := mapString map "Year"
  rated := mapString map "Rated"
  released := mapString map "Released"
  runtime := mapString map "Runtime"
  genre := mapString map "Genre"
  director := mapString map "Director"
  writer := mapString map "Writer"
  actors := mapString map "Actors"
  plot := mapString map "Plot"
  language := mapString map "Language"
  country := mapString map "Country"
  awards := mapString map "Awards"
  poster := mapString map "Poster"
  metascore := mapString map "Metascore"
  imdbRating := mapString map "imdbRating"
  imdbVotes := mapString map "imdbVotes"
  imdbID := mapString map "imdbID"
  type := mapString map "Type"
  dVD := mapString map "DVD"
  boxOffice := mapString map "BoxOffice"
  production := mapString map "Production"
  website := mapString map "Website"
  response := mapString map "Response"

/-- `Mapper<N>().map(JSONObject:)`. -/
def mapObject {Dto : Type} (mapping : Fields -> Dto) (json : Option JSON) : Option Dto :=
  (json.bind asObject).map mapping

/-!
## Requests and responses
-/

/-- Languages with a `Localizable.strings` table. -/
inductive AppLocale where
  | en
  | es
deriving DecidableEq, Repr

inductive NetworkErrorKey where
  | networkError
  | networkError2
deriving DecidableEq, Repr

def NSLocalizedString : AppLocale -> NetworkErrorKey -> String
  | .en, .networkError => "There was an error. Check your internet connection."
  | .en, .networkError2 => "Error on request."
  | .es, .networkError => "Ocurrió un error. Compruebe su conexión a Internet."
  | .es, .networkError2 => "Error en la petición"

/-- `AFDataResponse`: a transport or parsing failure, or a status code and a body. -/
inductive DataResponse where
  | failure
  | success (statusCode : Int) (data : JSON)

structure ApiCallback where
  isSuccessful : Bool
  json : Option JSON
  fail : String

/-- The response handler of `ApiManager.get`. -/
def ApiManager.get (locale : AppLocale) : DataResponse -> ApiCallback
  | .success statusCode data =>
      if 200 ≤ statusCode ∧ statusCode ≤ 300 then
        { isSuccessful := true, json := some data, fail := "" }
      else
        { isSuccessful := false, json := none, fail := NSLocalizedString locale .networkError2 }
  | .failure =>
      { isSuccessful := false, json := none, fail := NSLocalizedString locale .networkError }

structure ModelCallback (Dto : Type) where
  isSuccessful : Bool
  success : Option Dto
  fail : Option String

/-- The body shared by `MoviesModel.getMovies` and `MovieDetailModel.getMovieDetail`. -/
def modelCallback {Dto : Type} (mapping : Fields -> Dto) (api : ApiCallback) :
    ModelCallback Dto :=
  if api.isSuccessful then
    match mapObject mapping api.json with
    | some dto => { isSuccessful := true, success := some dto, fail := none }
    | none => { isSuccessful := false, success := none, fail := some api.fail }
  else
    { isSuccessful := false, success := none, fail := some api.fail }

def MoviesModel.getMovies (locale : AppLocale) (r : DataResponse) : ModelCallback MovieDto :=
  modelCallback MovieDto.mapping (ApiManager.get locale r)

def MovieDetailModel.getMovieDetail (locale : AppLocale) (r : DataResponse) :
    ModelCallback MovieDetailDto :=
  modelCallback MovieDetailDto.mapping (ApiManager.get locale r)

/-- A model reports either a DTO or an error text, never neither. -/
theorem modelCallback_cases {Dto : Type} (mapping : Fields -> Dto) (api : ApiCallback) :
    (exists dto, modelCallback mapping api =
      { isSuccessful := true, success := some dto, fail := none }) ∨
    (exists error, modelCallback mapping api =
      { isSuccessful := false, success := none, fail := some error }) := by
  unfold modelCallback
  cases api.isSuccessful with
  | false => exact Or.inr ⟨api.fail, rfl⟩
  | true =>
      cases hmap : mapObject mapping api.json with
      | none => exact Or.inr ⟨api.fail, rfl⟩
      | some dto => exact Or.inl ⟨dto, rfl⟩

end Network
end MyMovies
