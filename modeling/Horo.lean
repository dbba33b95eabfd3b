import Horo.Lib.Reach
import Horo.Server.TtyCreator
import Horo.Push.PushNotificationsWrapper
import Horo.Json.Value
import Horo.Json.Writer
import Horo.Json.Reader
import Horo.Text
import Horo.Data.Person
import Horo.Settings
import Horo.CurrentPerson
import Horo.Push.Notifications
import Horo.Lib.Sqlite
import Horo.Lib.Table
import Horo.Lib.MapM
import Horo.PersonDao
import Horo.FriendsManager
import Horo.HoroscopesParser
import Horo.HoroscopesDocument
import Horo.PredictionScreen
import Horo.PredictionReplies
import Horo.Friends.FriendsScreen
import Horo.Friends.Steps
import Horo.Friends.Pairing
import Horo.Friends.Attribution
import Horo.Friends.Updating
import Horo.Friends.Imports
import Horo.Friends.Cancellation
import Horo.Friends.Completions
import Horo.Friends.Authorization
import Horo.Ntp
import Horo.Account
import Horo.Lib.EcmaDate
import Horo.Server.Dates
import Horo.Server.PushSender
import Horo.Server.PushTeaser
import Horo.Push.DeviceToken
import Horo.Push.Rooms
import Horo.Server.TtyDates
import Horo.Data.Horoscope
import Horo.HoroscopeDao
import Horo.HoroscopesService
import Horo.Lib.EcmaString
import Horo.Server.PredictionText
import Horo.Server.HoroscopesUpdater
import Horo.Server.PageText
import Horo.Lib.Hex
import Horo.Data.Url
import Horo.Html.Gumbo
import Horo.Html.FriendsParser
import Horo.Platform
import Horo.Birthday.Detector
import Horo.Birthday.Soundness
import Horo.FacebookLogin
import Horo.Html.UserDetailParser
import Horo.Birthday.Recognition
import Horo.Managers
import Horo.Lib.Segment
import Horo.Lib.StdString
import Horo.Horobase
import Horo.Friends.RungLadder
import Horo.HoroscopesCell
import Horo.Screens.PageAndTab
import Horo.Screens.Navigation
import Horo.Json.Styled
import Horo.Edition
import Horo.Push.Reception
import Horo.Friends.OwnPage
import Horo.Push.Tap
import Horo.Screens.Menu
import Horo.Session
