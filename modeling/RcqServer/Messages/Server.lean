import RcqServer.Messages.RoomLog
import RcqServer.ReadCommitted.Adequacy

/-!
# The message service as a system of requests

Everything that can arrive, with the handler that serves it.  Time and presence move by requests
of their own: `tick` lets time pass, `seen` is the stamp that a socket's heartbeat writes.
-/

namespace RcqServer.Messages

open ReadCommitted

inductive Request
  | sendSealed (body : SealedSendIn) (online : Bool)
  | sendGroupSealed (body : GroupSealedSendIn) (caller : Option Uin) (env : PostEnv)
  | sendGroupBroadcast (body : GroupBroadcastIn) (caller : Option Uin) (env : PostEnv)
  | fetchQueue (uin : Uin) (device : DeviceId) (ack : Bool) (dev : ℕ)
  | ackQueue (uin : Uin) (device : DeviceId) (body : AckIn) (dev : ℕ)
  | fetchGroupLog (uin : Uin) (device : DeviceId) (body : GroupLogFetchIn)
  | ackGroupLog (uin : Uin) (device : DeviceId) (rooms : List (GroupId × ℤ))
  | join (gid : GroupId) (uin : Uin) (refusal : Option HttpError)
  | tick (seconds : ℕ)
  | seen (uin : Uin)
deriving DecidableEq

inductive Answer
  | sent (out : SendOut)
  | queue (rows : List HistoryRow)
  | acked (count : ℕ)
  | page (out : GroupLogFetchOut)
  | done
deriving DecidableEq

/-- The heartbeat stamp of an account. -/
def touchUser (uin : Uin) : Handler Unit := do
  let now ← clock
  .write .touchUser
    (fun db _ => ((db.users.get uin).map fun u =>
      Write.user uin (some { u with lastSeen := some now })).toList)
    fun _ _ => ()
  .commitOnly .commit

def handler (cfg : Config) : Request → Handler Answer
  | .sendSealed body online => do return .sent (← sendSealed cfg body online)
  | .sendGroupSealed body caller env => do return .sent (← sendGroupSealed cfg body caller env)
  | .sendGroupBroadcast body caller env => do
    return .sent (← sendGroupBroadcast cfg body caller env)
  | .fetchQueue uin device ack dev => do return .queue (← fetchQueue uin device ack dev)
  | .ackQueue uin device body dev => do return .acked (← ackQueue uin device body dev)
  | .fetchGroupLog uin device body => do return .page (← fetchGroupLog uin device body)
  | .ackGroupLog uin device rooms => do return .acked (← ackGroupLog uin device rooms)
  | .join gid uin refusal => do
    joinGroup gid uin refusal
    return .done
  | .tick seconds => do
    .effect .clock fun _ e => { e with now := e.now + seconds }
    return .done
  | .seen uin => do
    touchUser uin
    return .done

abbrev State := Shared Db Ext

abbrev World := ReadCommitted.World Db Ext Write Label HttpError Request Answer

end RcqServer.Messages
