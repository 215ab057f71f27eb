import RcqServer.Basic
import Mathlib.Data.List.Sort

/-!
# The sockets of a worker

Each worker keeps its websockets in three maps (`services/connection_manager.py`): the sockets of an
account, the device of a socket, and when the socket was accepted.  A new socket of a device takes the
place of an older one, and beyond a ceiling the oldest sockets of the account have to go.  Every
function below is what happens under the lock of the manager.

A set of sockets is a list in the order in which Python walks it.  That order is not the program's to
choose: `Op.rehash` may change it at any time.
-/

namespace RcqServer.Connections

open Function

/-- A websocket. -/
abbrev Socket := ℕ

/-- The device id of a session. -/
abbrev Dev := List Char

/-- The device id of a session whose token names none. -/
def primary : Dev := "primary".toList

structure Manager where
  /-- `_conns`. -/
  conns : Uin → Option (List Socket)
  /-- `_device_of`. -/
  deviceOf : Socket → Option Dev
  /-- `_opened_at`. -/
  openedAt : Socket → Option Time

namespace Manager

/-- `ConnectionManager()`. -/
def empty : Manager := ⟨fun _ => none, fun _ => none, fun _ => none⟩

/-- `self._conns.get(uin, ())`. -/
def socketsOf (m : Manager) (uin : Uin) : List Socket := (m.conns uin).getD []

/-- `self._device_of.get(ws, "primary")`. -/
def device (m : Manager) (ws : Socket) : Dev := (m.deviceOf ws).getD primary

/-- `self._device_of.pop(ws, None)` and `self._opened_at.pop(ws, None)` for some sockets. -/
def forget (m : Manager) (gone : List Socket) : Manager where
  conns := m.conns
  deviceOf ws := if ws ∈ gone then none else m.deviceOf ws
  openedAt ws := if ws ∈ gone then none else m.openedAt ws

/-- `conns.discard(ws)` for some sockets of an account; a set that becomes empty is dropped. -/
def discard (m : Manager) (uin : Uin) (gone : List Socket) : Manager :=
  let left := (m.socketsOf uin).filter (· ∉ gone)
  if (m.socketsOf uin).isEmpty then m
  else { m with conns := update m.conns uin (if left.isEmpty then none else some left) }

/-- The oldest sockets beyond the ceiling, but for the new one. -/
def surplus (m : Manager) (cap : ℤ) (existing : List Socket) (ws : Socket) : List Socket :=
  let older (a b : Socket) : Prop := (m.openedAt a).getD 0 ≤ (m.openedAt b).getD 0
  if cap < existing.length then
    ((existing.filter (· ≠ ws)).insertionSort older).take (existing.length - cap).toNat
  else []

/-- `connect`, with `_MAX_SOCKETS_PER_UIN = cap`. -/
def connect (cap : ℤ) (m : Manager) (uin : Uin) (ws : Socket) (dev : Dev) (now : Time) : Manager :=
  let same := (m.socketsOf uin).filter (m.device · = dev)
  let existing := ((m.socketsOf uin).filter (· ∉ same)).insert ws
  let m := m.forget same
  let extra := m.surplus cap existing ws
  let m := m.forget extra
  { conns := update m.conns uin (some (existing.filter (· ∉ extra)))
    deviceOf := update m.deviceOf ws (some dev)
    openedAt := update m.openedAt ws (some now) }

/-- `disconnect`: what is left, and the device that is not connected here any more. -/
def disconnect (m : Manager) (uin : Uin) (ws : Socket) : Manager × Option Dev :=
  let gone := m.deviceOf ws
  let m := m.forget [ws]
  let stillLocal := (m.socketsOf uin).any fun other => other ≠ ws ∧ m.deviceOf other = gone
  (m.discard uin [ws], gone.filter fun dev => !dev.isEmpty && !stillLocal)

/-- `_close_local_sockets_for_device`. -/
def closeDevice (m : Manager) (uin : Uin) (dev : Dev) : Manager :=
  let old := (m.socketsOf uin).filter (m.device · = dev)
  (m.forget old).discard uin old

/-- `_close_local_sockets_for_uin`. -/
def closeUin (m : Manager) (uin : Uin) : Manager :=
  { m.forget (m.socketsOf uin) with conns := update m.conns uin none }

/-- The set of an account is walked in another order. -/
def rehash (m : Manager) (uin : Uin) (order : List Socket) : Manager :=
  { m with conns := update m.conns uin ((m.conns uin).map fun _ => order) }

end Manager

/-! ## A worker -/

/-- A worker, and the account of each websocket that its endpoint has accepted. -/
structure Worker where
  manager : Manager
  accepted : Socket → Option Uin

/-- What can happen to the maps of a worker.  A supersede by another worker and a kick of a device both
are a `closeDevice`, a kick of the account is a `closeUin`. -/
inductive Op
  | connect (uin : Uin) (ws : Socket) (dev : Dev) (now : Time)
  | disconnect (ws : Socket)
  | closeDevice (uin : Uin) (dev : Dev)
  | closeUin (uin : Uin)
  | rehash (uin : Uin) (order : List Socket)

namespace Worker

def initial : Worker := ⟨.empty, fun _ => none⟩

/-- `ws_endpoint` accepts a socket once, and disconnects it from the account that it was accepted
for. -/
def step (cap : ℤ) (w : Worker) : Op → Worker
  | .connect uin ws dev now =>
    if (w.accepted ws).isSome then w
    else
      { manager := w.manager.connect cap uin ws dev now
        accepted := update w.accepted ws (some uin) }
  | .disconnect ws =>
    match w.accepted ws with
    | none => w
    | some uin => { w with manager := (w.manager.disconnect uin ws).1 }
  | .closeDevice uin dev => { w with manager := w.manager.closeDevice uin dev }
  | .closeUin uin => { w with manager := w.manager.closeUin uin }
  | .rehash uin order =>
    if order.Perm (w.manager.socketsOf uin) then { w with manager := w.manager.rehash uin order }
    else w

/-- The worker after a sequence of operations. -/
def run (cap : ℤ) (ops : List Op) : Worker := ops.foldl (step cap) initial

end Worker

end RcqServer.Connections
