import RcqServer.Sessions.Rotation

/-!
# Sessions as a system of requests
-/

namespace RcqServer.Sessions

open ReadCommitted

/-- Everything that can arrive.  `check` stands for every authenticated call that is not modelled
further, `background` for a rebuild of the epoch mirror, `tick` for time that passes. -/
inductive Request
  | check (token : Token)
  | login (uin : Uin) (device : Option DeviceId)
  | session (token : Token)
  | claimDevice (token : Token) (device : DeviceId)
  | linkDevice (token : Token) (label : String)
  | markDeviceSeen (token : Token)
  | listDevices (token : Token)
  | revokeOwnDevice (token : Token)
  | revokeDevice (token : Token) (device : DeviceId)
  | revokeDeviceSlot (token : Token) (slot : ℕ)
  | reissue (token : Token) (body : ReissueIn) (env : ReissueEnv)
  | burn (uin : Uin)
  | background
  | tick (seconds : ℕ)

inductive Answer
  | account (uin : Uin)
  | token (token : Token)
  | devices (rows : List (DeviceId × DeviceEntry))
  | done
deriving DecidableEq

def handler (cfg : Config) (verify : Verify) : Request → Handler Answer
  | .check token => do return .account (← authorizeSession token)
  | .login uin device => do return .token (← login uin device)
  | .session token => do return .token (← session token)
  | .claimDevice token device => do return .token (← claimDevice token device)
  | .linkDevice token label => do return .token (← linkDevice token label)
  | .markDeviceSeen token => do
    markDeviceSeen token
    return .done
  | .listDevices token => do return .devices (← listDevices token)
  | .revokeOwnDevice token => do
    revokeOwnDevice token
    return .done
  | .revokeDevice token device => do
    revokeDevice cfg token device
    return .done
  | .revokeDeviceSlot token slot => do
    revokeDeviceSlot cfg token slot
    return .done
  | .reissue token body env => do return .token (← reissue verify token body env)
  | .burn uin => do
    burn uin
    return .done
  | .background => do
    background
    return .done
  | .tick seconds => do
    .effect .tick fun _ e => { e with now := e.now + seconds }
    return .done

abbrev World := ReadCommitted.World Db Ext Write Label HttpError Request Answer

end RcqServer.Sessions
