import RcqServer.Connections.Manager
import RcqServer.Expiring
import RcqServer.ReadCommitted.Outside
import RcqServer.ReadCommitted.Serial

/-!
# Which devices are online

For each account Redis has one set of the devices that are connected to any worker, and the set as a
whole expires (`_online_devs_key`).  A connect and every frame of a client add the device and put the
expiry of the set off; so does whoever asks for the set.  A device leaves the set when its last socket
on a worker is disconnected, if the worker lives to do it.

A crash takes the maps of a worker and its sockets; a worker that comes back is another one.  What was
in flight on it may be killed at any point.

`Ext.live` and `Ext.losses` are not part of the service: they say which endpoints are in their receive
loop, and when a socket of a device was lost.
-/

namespace RcqServer.Connections

open ReadCommitted Function

/-- `_ONLINE_DEVS_TTL`. -/
def onlineDevsTtl : Time := 180

/-- What `ws_endpoint` knows of its socket. -/
structure Endpoint where
  worker : ℕ
  uin : Uin
  dev : Dev

/-- A socket of the device was lost. -/
structure Loss where
  uin : Uin
  dev : Dev
  time : Time
deriving DecidableEq

structure Ext where
  now : Time
  /-- The managers of the workers that run. -/
  workers : ℕ → Option Manager
  /-- The sets under `_online_devs_key`. -/
  devs : Uin → Option (Expiring.Entry (List Dev))
  accepted : Socket → Option Endpoint
  live : List Socket
  losses : List Loss

namespace Ext

/-- `SMEMBERS`. -/
def members (e : Ext) (uin : Uin) : List Dev := (Expiring.read e.now (e.devs uin)).getD []

/-- `SADD`. -/
def sadd (e : Ext) (uin : Uin) (dev : Dev) : Ext :=
  { e with
    devs := update e.devs uin
      (Expiring.alter e.now (fun v => some ((v.getD []).insert dev)) (e.devs uin)) }

/-- `EXPIRE`. -/
def expire (e : Ext) (uin : Uin) : Ext :=
  { e with
    devs := update e.devs uin (Expiring.expire e.now onlineDevsTtl (e.devs uin)) }

/-- `SREM`; a set without members is gone. -/
def srem (e : Ext) (uin : Uin) (dev : Dev) : Ext :=
  { e with
    devs := update e.devs uin
      (Expiring.alter e.now (fun v => (v.map (·.filter (· ≠ dev))).filter (· ≠ [])) (e.devs uin)) }

/-- `DEL`. -/
def del (e : Ext) (uin : Uin) : Ext := { e with devs := update e.devs uin none }

/-- The maps of a worker change, if it runs. -/
def onWorker (e : Ext) (n : ℕ) (f : Manager → Manager) : Ext :=
  { e with workers := update e.workers n ((e.workers n).map f) }

/-- The worker runs, and the socket is a new one. -/
def accepts (e : Ext) (n : ℕ) (ws : Socket) : Bool :=
  (e.workers n).isSome && (e.accepted ws).isNone

/-- `ws.accept()` and what `connect` does under the lock. -/
def accept (e : Ext) (cap : ℤ) (p : Endpoint) (ws : Socket) : Ext :=
  if e.accepts p.worker ws then
    { e.onWorker p.worker fun m => m.connect cap p.uin ws p.dev e.now with
      accepted := update e.accepted ws (some p)
      live := ws :: e.live }
  else e

/-- Some sockets are lost. -/
def lose (e : Ext) (gone : Socket → Bool) : Ext :=
  { e with
    live := e.live.filter fun ws => !gone ws
    losses := ((e.live.filter gone).filterMap fun ws =>
      (e.accepted ws).map fun p => ⟨p.uin, p.dev, e.now⟩) ++ e.losses }

/-- The socket is of an endpoint on the worker. -/
def onCrashed (e : Ext) (n : ℕ) (ws : Socket) : Bool := (e.accepted ws).any (·.worker = n)

/-- A worker dies. -/
def crash (e : Ext) (n : ℕ) : Ext :=
  { e.lose (e.onCrashed n) with workers := update e.workers n none }

/-- The device has a live socket. -/
def connected (e : Ext) (uin : Uin) (dev : Dev) : Bool :=
  e.live.any fun ws => (e.accepted ws).any fun p => p.uin = uin ∧ p.dev = dev

end Ext

inductive Label
  | accept | lose (ws : Socket) | crash (n : ℕ) | frame | maps
  | sadd (uin : Uin) (dev : Dev) | expire (uin : Uin) | srem | smembers | del
  | tick

abbrev Handler := Prog Unit Ext Empty Label Empty

/-! ## Requests -/

def sadd (uin : Uin) (dev : Dev) : Handler Unit :=
  .effect (.sadd uin dev) fun _ e => e.sadd uin dev

def expire (uin : Uin) : Handler Unit := .effect (.expire uin) fun _ e => e.expire uin

def srem (uin : Uin) (dev : Dev) : Handler Unit := .effect .srem fun _ e => e.srem uin dev

/-- `connect`: whether the socket was accepted. -/
def connect (cap : ℤ) (p : Endpoint) (ws : Socket) : Handler Bool := do
  let ok ← .stmt .accept (fun _ _ => []) (fun _ e => e.accept cap p ws)
    fun _ e => .ret (e.accepts p.worker ws)
  if ok then
    sadd p.uin p.dev
    expire p.uin
    return true
  else
    return false

/-- What `disconnect` does under the lock: the device that has to leave the set. -/
def leave (p : Endpoint) (ws : Socket) : Handler (Option Dev) :=
  .stmt .maps (fun _ _ => []) (fun _ e => e.onWorker p.worker fun m => (m.disconnect p.uin ws).1)
    fun _ e => .ret ((e.workers p.worker).bind fun m => (m.disconnect p.uin ws).2)

/-- A socket comes to its end: the receive loop ends, and `disconnect` follows. -/
def disconnect (ws : Socket) : Handler Unit := do
  let p ← .stmt (.lose ws) (fun _ _ => []) (fun _ e => e.lose (· == ws))
    fun _ e => .ret (e.accepted ws)
  match p with
  | none => return ()
  | some p =>
    let gone ← leave p ws
    match gone with
    | none => return ()
    | some dev => srem p.uin dev

/-- A client sends a frame: `touch_device`. -/
def frame (ws : Socket) : Handler Unit := do
  let p ← .read .frame fun _ e => if ws ∈ e.live then e.accepted ws else none
  match p with
  | none => return ()
  | some p =>
    sadd p.uin p.dev
    expire p.uin

/-- `online_devices`. -/
def onlineDevices (uin : Uin) : Handler (List Dev) := do
  let raw ← .read .smembers fun _ e => e.members uin
  if raw.isEmpty then
    return raw
  else
    expire uin
    return raw

/-- `_close_local_sockets_for_device`, which the supersede of another worker asks for as well. -/
def closeDevice (n : ℕ) (uin : Uin) (dev : Dev) : Handler Unit :=
  .effect .maps fun _ e => e.onWorker n fun m => m.closeDevice uin dev

/-- `kick_device` on a worker; the others hear of it by a supersede. -/
def kickDevice (n : ℕ) (uin : Uin) (dev : Dev) : Handler Unit := do
  closeDevice n uin dev
  srem uin dev

/-- `kick_uin`, of which the workers hear by a message. -/
def kickUin (uin : Uin) : Handler Unit := .effect .del fun _ e => e.del uin

/-- `_close_local_sockets_for_uin`. -/
def closeUin (n : ℕ) (uin : Uin) : Handler Unit :=
  .effect .maps fun _ e => e.onWorker n fun m => m.closeUin uin

/-! ## The system -/

inductive Request
  | connect (p : Endpoint) (ws : Socket)
  | disconnect (ws : Socket)
  | frame (ws : Socket)
  | onlineDevices (uin : Uin)
  | supersede (n : ℕ) (uin : Uin) (dev : Dev)
  | kickDevice (n : ℕ) (uin : Uin) (dev : Dev)
  | kickUin (uin : Uin)
  | closeUin (n : ℕ) (uin : Uin)
  | crash (n : ℕ)
  | tick (seconds : ℕ)

inductive Answer
  | accepted (ok : Bool)
  | devices (devices : List Dev)
  | done
deriving DecidableEq

def handler (cap : ℤ) : Request → Handler Answer
  | .connect p ws => do return .accepted (← connect cap p ws)
  | .disconnect ws => do
    disconnect ws
    return .done
  | .frame ws => do
    frame ws
    return .done
  | .onlineDevices uin => do return .devices (← onlineDevices uin)
  | .supersede n uin dev => do
    closeDevice n uin dev
    return .done
  | .kickDevice n uin dev => do
    kickDevice n uin dev
    return .done
  | .kickUin uin => do
    kickUin uin
    return .done
  | .closeUin n uin => do
    closeUin n uin
    return .done
  | .crash n => do
    .effect (.crash n) fun _ e => e.crash n
    return .done
  | .tick seconds => do
    .effect .tick fun _ e => { e with now := e.now + seconds }
    return .done

abbrev State := Shared Unit Ext

abbrev World := ReadCommitted.World Unit Ext Empty Label Empty Request Answer

/-- A cluster before the first socket. -/
def World.initial (now : Time) : World :=
  .fresh () ⟨now, fun _ => some .empty, fun _ => none, fun _ => none, [], []⟩

end RcqServer.Connections
