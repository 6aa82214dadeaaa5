import MyMovies.Foundation.Runs
import MyMovies.Firebase.Database
import MyMovies.Network.Pipeline
import MyMovies.Loader.LoaderManager
import MyMovies.Storage.StorageService
import MyMovies.View.Utilities
import MyMovies.View.MovieCell
import MyMovies.View.MovieDetailController
import MyMovies.Favourites.FavouritesStore
import MyMovies.Favourites.OpenScreens
import MyMovies.Detail.DetailScreen
import MyMovies.Recommended.RecommendedModel
import MyMovies.Recommended.Sharing
import MyMovies.Recommended.ConcurrentShares
import MyMovies.Search.MovieController
import MyMovies.Favourites.FavouritesController
import MyMovies.Favourites.FavouriteRows
import MyMovies.Presenter.Requests
import MyMovies.Recommended.SharedObservers
import MyMovies.Screens.ListRows
import MyMovies.Screens.Loaders
import MyMovies.Firebase.ViewProcessor
import MyMovies.Firebase.SyncTree
import MyMovies.Firebase.Repo
import MyMovies.Firebase.OrderedPuts
import MyMovies.Firebase.Client
import MyMovies.Recommended.SharedFilms
