/-
# The friends screen, the provider of friends and the web view

`src/models/friendsscreenmodel`, `src/managers/friendsmanager`,
`src/managers/friendsprovider`, `src/ios/WebViewServiceObjc` and
`classes/WebViewControllerImpl` as one system. The events are those of the
user, of the timers and of WebKit; WebKit may report whatever it likes, in
whatever order, but it replies to each script once.

A C++ exception leaves the state as it was when it was thrown.
-/
import Horo.FriendsManager
import Horo.Friends.RungTimer
import Horo.Lib.Reach

namespace Horo
namespace Friends

open Lib PersonDao

/-! ### The state -/

/-- A person that is in memory: others point to it by its index. -/
structure PersonObject where
  person : Person
  updating : Bool
  deriving DecidableEq, Repr

/-- The callbacks that are handed to `executeRequest`. -/
inductive Callback
  | home | friendsPage | userDetail
  deriving DecidableEq, Repr

/-- What a retry requests again. -/
inductive Retry
  | home
  | userDetail (path : List Char)
  deriving DecidableEq, Repr

/-- `FacebookFriendsProvider`. The completions are closures that the code makes
in one place each: what is kept is whether they are set, and whose they are. -/
structure Provider where
  request : Bool
  callback : Bool
  currentPath : List Char
  friendsUrl : List Char
  userInformationCompletion : Option ℕ
  responseTimeoutTimer : Option (Retry × RungTimer)
  serviceBlock : Bool
  deriving DecidableEq, Repr

/-- `WebViewControllerImpl`, with the blocks it has scheduled. -/
structure WebView where
  webViewDidLoadCompletion : Option Callback
  serviceBlock : Bool
  delegate : Bool
  workingURL : List Char
  swipingActive : Bool
  cachedPageContent : Option String
  dialogPresented : Bool
  currentNavigationRequest : ℕ
  forceDidFinishNavigation : Bool
  doCyclicScheduled : Bool
  finishSwipingScheduled : Bool
  /-- The requests WebKit was asked to load. -/
  loads : List (List Char)
  /-- The current navigation has neither finished nor failed. -/
  navigating : Bool
  /-- The scripts that WebKit has not replied to. -/
  evaluations : ℕ
  deriving DecidableEq, Repr

/-- `birthdayUpdated` has run: for whom, and whose page the birthday is from. -/
structure Attribution where
  person : Person
  birthday : DateWrapper
  page : Option (List Char)
  deriving DecidableEq, Repr

structure State where
  persons : List PersonObject
  table : Persons
  currentPerson : Option ℕ
  friendsList : List ℕ
  provider : Provider
  web : WebView
  /-- The prediction screens that were opened. -/
  opened : List ℕ
  attributions : List Attribution

/-- What the parsers make of a page: the persons of a page of friends, and the
date whose text a detail page gives. -/
structure Parsers where
  friends : String → Json.Value
  birthday : String → DateWrapper

def State.setProvider (s : State) (f : Provider → Provider) : State :=
  { s with provider := f s.provider }

def State.setWeb (s : State) (f : WebView → WebView) : State := { s with web := f s.web }

/-! ### The web view controller -/

namespace WebView

def loadURLWithPath (path : List Char) (completion : Callback) (force : Bool) (w : WebView) :
    WebView :=
  { w with
    forceDidFinishNavigation := force
    workingURL := path
    webViewDidLoadCompletion := some completion
    serviceBlock := true
    cachedPageContent := none
    currentNavigationRequest := w.loads.length
    loads := w.loads ++ [path]
    navigating := true }

/-- `launchCyclicBottomSwiping`, with the first `doCyclic`. -/
def triggerSwipeToBottom (completion : Callback) (w : WebView) : WebView :=
  { w with webViewDidLoadCompletion := some completion, swipingActive := true,
           doCyclicScheduled := true }

def cancel (w : WebView) : WebView := { w with swipingActive := false, navigating := false }

/-- `samePath`: WebKit is at the path of the working URL. -/
def performSuccessCallback (samePath : Bool) (w : WebView) : WebView :=
  if samePath then { w with evaluations := w.evaluations + 1 } else w

def doCyclic (withNotify samePath : Bool) (w : WebView) : WebView :=
  if w.swipingActive = false then w
  else
    let w := if withNotify then w.performSuccessCallback samePath else w
    { w with doCyclicScheduled := true }

def finishSwiping (w : WebView) : WebView := { w with swipingActive := false }

end WebView

/-! ### The screen and the manager -/

def setUpdating (i : ℕ) (updating : Bool) (s : State) : State :=
  { s with persons := s.persons.modify i fun o => { o with updating := updating } }

def showPersonViewController (i : ℕ) (s : State) : State := { s with opened := s.opened ++ [i] }

/-- The persons that were read are new objects. -/
def loadFriends (friends : List Person) (s : State) : State :=
  { s with persons := s.persons ++ friends.map fun p => ⟨p, false⟩
           friendsList := List.range' s.persons.length friends.length }

/-- The callback `personSelected` makes for a person. -/
def personUpdated (i : ℕ) (success : Bool) (s : State) : State :=
  let s := setUpdating i false s
  let s := if success then showPersonViewController i s else s
  if s.currentPerson = some i then { s with currentPerson := none } else s

variable (F : Sqlite.Doubles) (parsers : Parsers)

/-- The completion of `loadFacebookFriends`, and whether it returns. -/
def friendsLoaded (friends : Json.Value) (status : FriendsManager.RequestStatus) (s : State) :
    State × Bool :=
  if status = .partialResult then
    let s := { s with table := FriendsManager.friendsLoaded F friends status s.table }
    if FriendsManager.readable friends then
      match readFacebookFriends F s.table with
      | some found => (loadFriends found s, true)
      | none => (s, false)
    else (s, false)
  else (s, true)

def birthdayUpdated (i : ℕ) (birthday : DateWrapper) (page : Option (List Char)) (s : State) :
    State :=
  match s.persons[i]? with
  | none => s
  | some o =>
    let success : Bool := 0 < birthday.month
    let person := FriendsManager.withBirthday o.person birthday
    let s := { s with persons := s.persons.modify i fun o => { o with person := person }
                      attributions := s.attributions ++ [⟨o.person, birthday, page⟩] }
    let s := personUpdated i success s
    { s with table := writePerson F person s.table }

/-! ### The provider -/

/-- `callback_`, if it is set. -/
def callCallback (friends : Json.Value) (status : FriendsManager.RequestStatus) (s : State) :
    State × Bool :=
  if s.provider.callback then friendsLoaded F friends status s else (s, true)

def getTimeouts : List ℕ := [2, 2, 3, 3, 4, 5, 6, 7, 8, 9, 10, 11, 12]

/-- What `executeRequest` makes of a path. -/
def requestPath (path : List Char) : List Char :=
  let path := if contains "http".toList path then
    replaceAll path "https://m.facebook.com/".toList [] else path
  match path with
  | '/' :: path => path
  | path => path

/-- The path `requestUserInformation` makes of the URL of a person. -/
def userDetailPath (path : List Char) : List Char :=
  if contains "profile.php".toList path then path ++ "&v=info".toList
  else path.takeWhile (· ≠ '?') ++ "/about".toList

def executeRequest (path : List Char) (callback : Callback)
    (swipeToBottom forceDidFinishNavigation : Bool) (s : State) : State :=
  let s := s.setProvider fun q => { q with currentPath := requestPath path, request := true }
  if swipeToBottom then s.setWeb (·.triggerSwipeToBottom callback)
  else s.setWeb fun w =>
    { w with delegate := true }.loadURLWithPath s.provider.currentPath callback
      forceDidFinishNavigation

def cancelRequest (s : State) : State := if s.provider.request then s.setWeb (·.cancel) else s

def doExecuteHomePageRequest (s : State) : State :=
  let s := s.setProvider fun q => { q with serviceBlock := true }
  executeRequest "home.php".toList .home false false s

def doExecuteUserDetailPageRequest (path : List Char) (s : State) : State :=
  executeRequest path .userDetail false true s

def setTimer (retry : Retry) (s : State) : State :=
  s.setProvider fun q => { q with responseTimeoutTimer := some (retry, .start getTimeouts) }

def executeHomePageRequest (s : State) : State := doExecuteHomePageRequest (setTimer .home s)

def executeUserDetailPageRequest (path : List Char) (s : State) : State :=
  if path = [] then s else doExecuteUserDetailPageRequest path (setTimer (.userDetail path) s)

def Retry.doExecute : Retry → State → State
  | .home => doExecuteHomePageRequest
  | .userDetail path => doExecuteUserDetailPageRequest path

/-- The timer fires: its callback requests the page again, and returns true. -/
def timerFired (s : State) : State :=
  match s.provider.responseTimeoutTimer with
  | none => s
  | some (retry, timer) =>
    let s := if s.provider.request then
      (cancelRequest s).setProvider fun q => { q with request := false } else s
    let s := retry.doExecute s
    s.setProvider fun q => { q with responseTimeoutTimer := some (retry, timer.fired true) }

def executeFriendsPageRequest (path : List Char) (s : State) : State :=
  if path = [] then s
  else
    let loaded := callCallback F .null .partialResult s
    if loaded.2 then
      let s := loaded.1.setProvider fun q => { q with friendsUrl := path }
      executeRequest path .friendsPage false false s
    else loaded.1

def executeRequestFriendsNextPage (s : State) : State :=
  executeRequest s.provider.friendsUrl .friendsPage true false s

def requestFriendsList (s : State) : State :=
  executeHomePageRequest (s.setProvider fun q => { q with callback := true })

def requestUserInformation (path : List Char) (i : ℕ) (s : State) : State :=
  let s := s.setProvider fun q => { q with userInformationCompletion := some i }
  executeUserDetailPageRequest (userDetailPath path) s

def webViewDidLoad (url : List Char) : Bool := contains "login".toList url

def isRequiredAuthorizationResponse (url : List Char) (s : State) : State × Bool :=
  if contains "login".toList url then
    ((callCallback F .null .authorizationRequired s).1, true)
  else (s, false)

def operationDidFinishedWithError (s : State) : State :=
  (callCallback F .null .failed s).1

def parseHomePage (s : State) : State :=
  executeFriendsPageRequest F "/friends/center/friends/".toList s

def parseFriendsPage (text : String) (s : State) : State :=
  let loaded := callCallback F (parsers.friends text) .partialResult s
  if loaded.2 then executeRequestFriendsNextPage loaded.1 else loaded.1

def parseUserDetailPage (text : String) (page : Option (List Char)) (s : State) : State :=
  let dateString := (parsers.birthday text).toString
  match if dateString = [] then some DateWrapper.none else DateWrapper.fromString dateString with
  | none => s
  | some wrapper =>
    match s.provider.userInformationCompletion with
    | some i => birthdayUpdated F i wrapper page s
    | none => s

def Callback.run (text : String) (page : Option (List Char)) : Callback → State → State
  | .home, s =>
    parseHomePage F (s.setProvider fun q => { q with responseTimeoutTimer := none, serviceBlock := false })
  | .friendsPage, s => parseFriendsPage F parsers text s
  | .userDetail, s =>
    parseUserDetailPage F parsers text page (s.setProvider fun q => { q with responseTimeoutTimer := none })

/-- `requestCompleted`, with the blocks of `executeRequest`: an empty page
throws. -/
def requestCompleted (callback : Callback) (html : Option String) (url : List Char)
    (page : Option (List Char)) (s : State) : State :=
  match html with
  | none => operationDidFinishedWithError F s
  | some text =>
    if text = "" then s
    else
      let required := isRequiredAuthorizationResponse F url s
      if required.2 then required.1 else callback.run F parsers text page required.1

/-! ### What the user does -/

inductive CancelTypes
  | cancelAllFriendsLoad | cancelFriendBirthdayLoad
  deriving DecidableEq, Repr

def updateUserInformationForPerson (i : ℕ) (o : PersonObject) (s : State) : State :=
  if o.person.personUrl = "" then personUpdated i false s
  else requestUserInformation o.person.personUrl.toList i s

def personSelected (i : ℕ) (s : State) : State :=
  match s.persons[i]? with
  | none => s
  | some o =>
    match o.person.status with
    | .completed => showPersonViewController i s
    | .readyForRequest =>
      if s.currentPerson ≠ none ∧ s.currentPerson ≠ some i then s
      else
        let s := setUpdating i true { s with currentPerson := some i }
        updateUserInformationForPerson i o s
    | _ => s

def updateFriendsFromFacebook (s : State) : State := requestFriendsList s

def cancelOperation (type : CancelTypes) (s : State) : State :=
  let s := cancelRequest s
  match type, s.currentPerson with
  | .cancelFriendBirthdayLoad, some i => { setUpdating i false s with currentPerson := none }
  | _, _ => s

/-! ### What WebKit reports -/

/-- What WebKit replies to a script: the page that was evaluated, by the
request it was loaded for, if it was one of ours; the result, if it is a
string; and where WebKit is by then. -/
structure Reply where
  page : Option (List Char)
  object : Option String
  url : List Char
  deriving DecidableEq, Repr

/-- What the service block of the web view does. -/
def serviceMessage (s : State) : State :=
  if s.web.serviceBlock && s.provider.serviceBlock then
    s.setProvider fun q => { q with responseTimeoutTimer := none, serviceBlock := false }
  else s

def showDialog (s : State) : State :=
  (serviceMessage s).setWeb fun w => { w with dialogPresented := true }

def hideDialog (s : State) : State :=
  (serviceMessage s).setWeb fun w => { w with dialogPresented := false }

/-- A dialog that is not on the screen is presented again. -/
def checkWindow (needsShowDialog inWindow : Bool) (w : WebView) : WebView :=
  if needsShowDialog && !inWindow then { w with dialogPresented := false } else w

def toggleDialog (needsShowDialog : Bool) (s : State) : State :=
  if !s.web.dialogPresented && needsShowDialog then showDialog s
  else if s.web.dialogPresented && !needsShowDialog then hideDialog s
  else s

/-- `inWindow`: the dialog is on the screen. -/
def handleResponseWithURL (url : List Char) (force samePath inWindow : Bool) (s : State) : State :=
  if !force && s.web.forceDidFinishNavigation then s
  else
    let needsShowDialog := s.web.delegate && webViewDidLoad url
    if !force && needsShowDialog then s
    else
      (toggleDialog needsShowDialog (s.setWeb (checkWindow needsShowDialog inWindow))).setWeb
        (·.performSuccessCallback samePath)

/-- The check for an obsolete navigation does not return. -/
def didFinishNavigation (navigation : ℕ) (url : List Char) (samePath inWindow : Bool) (s : State) :
    State :=
  let s := if navigation = s.web.currentNavigationRequest then
    s.setWeb fun w => { w with navigating := false } else s
  handleResponseWithURL url true samePath inWindow s

def didFailNavigation (navigation : ℕ) (url : List Char) (samePath : Bool) (s : State) : State :=
  if navigation ≠ s.web.currentNavigationRequest then s
  else
    let s := s.setWeb fun w => { w with navigating := false }
    if samePath = false then s
    else
      match s.web.webViewDidLoadCompletion with
      | none => s
      | some cb =>
        let s := s.setWeb fun w =>
          { w with webViewDidLoadCompletion := none, serviceBlock := false
                   forceDidFinishNavigation := false }
        requestCompleted F parsers cb none url none s

/-- The controller does not implement it. -/
def didFailProvisionalNavigation (navigation : ℕ) (s : State) : State :=
  if navigation = s.web.currentNavigationRequest then
    s.setWeb fun w => { w with navigating := false } else s

/-- The reply to a script. The completion is the one that is set by now. -/
def evaluated (r : Reply) (s : State) : State :=
  let s := s.setWeb fun w => { w with evaluations := w.evaluations - 1 }
  match s.web.webViewDidLoadCompletion, r.object with
  | some cb, some object =>
    if s.web.cachedPageContent = some object then s
    else
      let s := s.setWeb fun w =>
        { w with finishSwipingScheduled := true, cachedPageContent := some object
                 webViewDidLoadCompletion := none, serviceBlock := false
                 forceDidFinishNavigation := false }
      requestCompleted F parsers cb (some object) r.url r.page s
  | _, _ => s

/-! ### The system -/

inductive Event
  | personSelected (i : ℕ)
  | updateFriendsFromFacebook
  | cancelOperation (type : CancelTypes)
  | decidePolicyForNavigationResponse (url : List Char) (samePath inWindow : Bool)
  | didFinishNavigation (navigation : ℕ) (url : List Char) (samePath inWindow : Bool)
  | didFailNavigation (navigation : ℕ) (url : List Char) (samePath : Bool)
  | didFailProvisionalNavigation (navigation : ℕ)
  | evaluated (r : Reply)
  | timerFired
  | doCyclicCallback (samePath : Bool)
  | finishSwiping
  | dialogWillDisappear
  | debugButtonTapped
  deriving DecidableEq, Repr

def step (s : State) : Event → State
  | .personSelected i => personSelected i s
  | .updateFriendsFromFacebook => updateFriendsFromFacebook s
  | .cancelOperation type => cancelOperation type s
  | .decidePolicyForNavigationResponse url samePath inWindow =>
    handleResponseWithURL url false samePath inWindow s
  | .didFinishNavigation navigation url samePath inWindow =>
    didFinishNavigation navigation url samePath inWindow s
  | .didFailNavigation navigation url samePath => didFailNavigation F parsers navigation url samePath s
  | .didFailProvisionalNavigation navigation => didFailProvisionalNavigation navigation s
  | .evaluated r => evaluated F parsers r s
  | .timerFired => timerFired s
  | .doCyclicCallback samePath => s.setWeb fun w =>
    { w with doCyclicScheduled := false }.doCyclic true samePath
  | .finishSwiping => s.setWeb fun w => { w with finishSwipingScheduled := false }.finishSwiping
  | .dialogWillDisappear => s.setWeb fun w => { w with dialogPresented := false }
  | .debugButtonTapped => showDialog s

/-- A retry timer is going to fire. -/
def State.retryPending (s : State) : Bool :=
  s.provider.responseTimeoutTimer.any fun (_, timer) => timer.isPending

def admits (s : State) : Event → Prop
  | .evaluated _ => 0 < s.web.evaluations
  | .timerFired => s.retryPending = true
  | .doCyclicCallback _ => s.web.doCyclicScheduled = true
  | .finishSwiping => s.web.finishSwipingScheduled = true
  | _ => True

instance (s : State) : ∀ e : Event, Decidable (admits s e)
  | .evaluated _ => inferInstanceAs (Decidable (0 < _))
  | .timerFired | .doCyclicCallback _ | .finishSwiping => inferInstanceAs (Decidable (_ = true))
  | .personSelected _ | .updateFriendsFromFacebook | .cancelOperation _
  | .decidePolicyForNavigationResponse _ _ _ | .didFinishNavigation _ _ _ _
  | .didFailNavigation _ _ _ | .didFailProvisionalNavigation _ | .dialogWillDisappear
  | .debugButtonTapped => inferInstanceAs (Decidable True)

/-- The application has been started, and has read its friends. -/
def initial (table : Persons) (friends : List Person) : State :=
  loadFriends friends
    { persons := [], table, currentPerson := none, friendsList := []
      provider := { request := false, callback := false, currentPath := [], friendsUrl := []
                    userInformationCompletion := none, responseTimeoutTimer := none
                    serviceBlock := false }
      web := { webViewDidLoadCompletion := none, serviceBlock := false, delegate := false
               workingURL := [], swipingActive := false, cachedPageContent := none
               dialogPresented := false, currentNavigationRequest := 0
               forceDidFinishNavigation := false, doCyclicScheduled := false
               finishSwipingScheduled := false, loads := [], navigating := false, evaluations := 0 }
      opened := [], attributions := [] }

def system : EventSystem State Event where
  init s := ∃ table friends, readFacebookFriends F table = some friends ∧ s = initial table friends
  admits := admits
  step := step F parsers

instance (s : State) (e : Event) : Decidable ((system F parsers).admits s e) :=
  inferInstanceAs (Decidable (admits s e))

/-! ### Two friends -/

/-- A friend whose birthday has not been requested yet. -/
def ready (personUrl : String) : Person :=
  { friend personUrl .none with status := .readyForRequest }

def ann : Person := ready "https://m.facebook.com/ann?fref=pb"
def bob : Person := ready "https://m.facebook.com/bob?fref=pb"

/-- The application has been started with Ann and Bob in its table. -/
def annAndBob : State := initial (written doubles [ann, bob]) [ann, bob]

/-- A detail page is its date, a page of friends lists nobody. -/
def plainParsers : Parsers where
  friends _ := .array []
  birthday text := (DateWrapper.fromString text.toList).getD .none

def annPage : List Char := "ann/about".toList
def bobPage : List Char := "bob/about".toList

/-- The page of Ann is shown, and its date read. -/
def annInTime : List Event :=
  [.personSelected 0, .didFinishNavigation 0 annPage true false,
   .evaluated ⟨some annPage, some "5.5.1990", annPage⟩]

/-- Ann is selected, and no retry of her page is answered until the last one fails. -/
def annGivenUp : List Event :=
  .personSelected 0 :: List.replicate 13 .timerFired ++ [.didFailNavigation 13 annPage true]

theorem init_annAndBob : (system doubles plainParsers).init annAndBob :=
  ⟨_, _, by decide +kernel, rfl⟩

theorem reach_annAndBob {es : List Event}
    (hrun : (system doubles plainParsers).Run EventSystem.anyEvent annAndBob es) :
    (system doubles plainParsers).Reach EventSystem.anyEvent
      ((system doubles plainParsers).exec annAndBob es) :=
  ⟨annAndBob, init_annAndBob, EventSystem.ReachFrom.exec es annAndBob hrun⟩

end Friends
end Horo
