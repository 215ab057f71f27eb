import RcqServer.Reuse.Requests

/-!
# A number in new hands

An account leaves its number, by burning it or by migrating away, and later somebody else registers
under it.  What the new holder and everybody else are then told about the number does not depend on
what the former holder did, if two things are not left behind.

* The registry of linked devices and the denylist of revoked ones.  Neither departure touches Redis,
  and both keys live for ninety days: within them the new holder finds the linked devices of the
  former one in the list, is served as an account with linked devices, and cannot sign in from an
  install that the former holder had disconnected.
* A site under the number's name with zeros before it.  `_move_sites` compares the name with
  `str(old_uin)`, while `put_site` reserves every name that `int` reads as the number.

Two islands are compared through the dossiers of the number, up to keys that have expired (`Alike`).
A request cannot tell such dossiers apart and leaves them alike, so a whole later history does not
tell the islands apart either.
-/

namespace RcqServer.Reuse

open ReadCommitted Option Function Expiring Finset
open Sessions (DeviceEntry)

structure Island where
  now : Time
  rows : Finset Row
  /-- `uin_epochs`. -/
  epochs : Uin → ℕ
  /-- `dev:{uin}`. -/
  devices : Uin → Option (Entry (Table DeviceId DeviceEntry))
  /-- `devrv:{uin}`. -/
  revoked : Uin → Option (Entry (List DeviceId))

namespace Island

variable (cfg : Sessions.Config) (uin : Uin)

/-- What the island keeps about the number. -/
def dossier (s : Island) : Dossier where
  rows := s.rows.filter fun r => r.names uin = true
  devices := s.devices uin
  revoked := s.revoked uin

/-- The island with another dossier of the number. -/
def file (s : Island) (d : Dossier) : Island :=
  { s with
    rows := (s.rows.filter fun r => r.names uin = false) ∪ d.rows
    devices := update s.devices uin d.devices
    revoked := update s.revoked uin d.revoked }

end Island

/-- A request, the time that passes before it, and what it meets elsewhere. -/
structure Visit where
  wait : Time
  refusal : Option HttpError
  request : Request

namespace Island

variable (cfg : Sessions.Config) (uin : Uin)

def wait (s : Island) (t : Time) : Island := { s with now := s.now + t }

/-- One request is served. -/
def serve (v : Visit) (s : Island) : Answer × Island :=
  let s := s.wait v.wait
  match v.refusal with
  | some e => (.refused e none, s)
  | none =>
    let done := v.request.respond cfg s.now uin (s.dossier uin)
    (done.1, s.file uin done.2)

/-- The answers to a history of requests, in order. -/
def answers : List Visit → Island → List Answer
  | [], _ => []
  | v :: rest, s => (s.serve cfg uin v).1 :: answers rest (s.serve cfg uin v).2

/-- The island after a history of requests. -/
def after : List Visit → Island → Island
  | [], s => s
  | v :: rest, s => after rest (s.serve cfg uin v).2

/-- The account leaves the number: the rows change hands and the epoch is bumped. -/
def leave (d : Departure) (s : Island) : Option Island :=
  (d.apply uin s.rows).map fun rows =>
    { s with rows := rows, epochs := update s.epochs uin (s.epochs uin + 1) }

/-- The island at a later time. -/
def at_ (s : Island) (t : Time) : Island := { s with now := t }

end Island

/-! ## Dossiers that requests cannot tell apart -/

/-- The same rows, and under the two keys the same, as far as it has not expired. -/
structure Alike (now : Time) (d d' : Dossier) : Prop where
  rows : d.rows = d'.rows
  devices : Expiring.find now d.devices = Expiring.find now d'.devices
  revoked : Expiring.find now d.revoked = Expiring.find now d'.revoked

namespace Alike

variable {now : Time} {d d' : Dossier} (cfg : Sessions.Config)

theorem later {t : Time} (h : Alike now d d') (hle : now ≤ t) : Alike t d d' :=
  ⟨h.rows, find_congr hle h.devices, find_congr hle h.revoked⟩

theorem registry_eq (h : Alike now d d') : d.registry now = d'.registry now := by
  unfold Dossier.registry
  rw [read_congr h.devices]

/-- A command on the registry. -/
theorem onDevices (h : Alike now d d')
    (f : Option (Table DeviceId DeviceEntry) → Option (Table DeviceId DeviceEntry)) :
    Alike now { d with devices := Expiring.alter now f d.devices }
      { d' with devices := Expiring.alter now f d'.devices } :=
  ⟨h.rows, congrArg _ (alter_congr h.devices f), h.revoked⟩

theorem dropDevices (devices : List DeviceId) : ∀ {d d' : Dossier}, Alike now d d' →
      Alike now (devices.foldl (Dossier.dropDevice now) d)
        (devices.foldl (Dossier.dropDevice now) d') := by
  induction devices with
  | nil => exact fun h => h
  | cons device rest ih => exact fun h => ih (h.onDevices _)

theorem linkDevice (h : Alike now d d') (device : DeviceId) (label : String) :
    (d.linkDevice now device label).1 = (d'.linkDevice now device label).1 ∧
      Alike now (d.linkDevice now device label).2 (d'.linkDevice now device label).2 := by
  unfold Dossier.linkDevice
  rw [h.registry_eq]
  split
  · exact ⟨rfl, h⟩
  · have hset := (h.onDevices fun rows => some ((rows.getD ∅).set device (some ⟨label, now, true⟩)))
    exact ⟨rfl, hset.rows, congrArg _ (expire_congr hset.devices _), hset.revoked⟩

theorem markDeviceSeen (h : Alike now d d') (device : DeviceId) :
    (d.markDeviceSeen now device).1 = (d'.markDeviceSeen now device).1 ∧
      Alike now (d.markDeviceSeen now device).2 (d'.markDeviceSeen now device).2 := by
  unfold Dossier.markDeviceSeen
  rw [h.registry_eq]
  split
  · exact ⟨rfl, h⟩
  · split
    · exact ⟨rfl, h.onDevices _⟩
    · exact ⟨rfl, h⟩

theorem revokeDevice (h : Alike now d d') (caller : Option DeviceId) (device : DeviceId) :
    (d.revokeDevice cfg now caller device).1 = (d'.revokeDevice cfg now caller device).1 ∧
      Alike now (d.revokeDevice cfg now caller device).2
        (d'.revokeDevice cfg now caller device).2 := by
  unfold Dossier.revokeDevice
  rw [h.registry_eq, h.rows]
  split
  · have hdenied := alter_congr h.revoked fun ids =>
      some ((ids.getD []).insert device)
    dsimp only
    rw [hdenied]
    exact ⟨rfl, rfl, (h.onDevices _).devices, rfl⟩
  · exact ⟨rfl, h⟩

/-- No request about the devices tells alike dossiers apart. -/
theorem respondDevice (h : Alike now d d') (r : DeviceRequest) :
    (respondDevice cfg now d r).1 = (respondDevice cfg now d' r).1 ∧
      Alike now (respondDevice cfg now d r).2 (respondDevice cfg now d' r).2 := by
  cases r with
  | hasLinkedDevices =>
    refine ⟨?_, h⟩
    change Answer.flag _ = Answer.flag _
    rw [read_congr h.devices]
  | linkDevice device label => exact h.linkDevice device label
  | markDeviceSeen device => exact h.markDeviceSeen device
  | listDevices =>
    simp only [Reuse.respondDevice, Dossier.listDevices, h.registry_eq]
    exact ⟨trivial, dropDevices _ h⟩
  | revokeDevice caller device => exact h.revokeDevice cfg caller device
  | deviceIsRevoked device =>
    refine ⟨?_, h⟩
    change Answer.flag _ = Answer.flag _
    rw [read_congr h.revoked]

/-- No request does. -/
theorem respond (h : Alike now d d') (uin : Uin) (r : Request) :
    (r.respond cfg now uin d).1 = (r.respond cfg now uin d').1 ∧
      Alike now (r.respond cfg now uin d).2 (r.respond cfg now uin d').2 := by
  cases r with
  | row r =>
    simp only [Request.respond, h.rows]
    exact ⟨trivial, rfl, h.devices, h.revoked⟩
  | device r => exact h.respondDevice cfg r

end Alike

/-! ## Islands that nobody can tell apart by asking about the number -/

namespace Island

variable {uin : Uin} {s s' : Island} (cfg : Sessions.Config)

/-- The dossiers are alike, at the same time. -/
structure Agree (uin : Uin) (s s' : Island) : Prop where
  now : s.now = s'.now
  dossiers : Alike s.now (s.dossier uin) (s'.dossier uin)

theorem dossier_file (s : Island) (d : Dossier) :
    (s.file uin d).dossier uin = { d with rows := d.rows.filter fun r => r.names uin = true } := by
  have hrows : ((s.rows.filter fun r => r.names uin = false) ∪ d.rows).filter
      (fun r => r.names uin = true) = d.rows.filter fun r => r.names uin = true := by
    ext r
    simp only [mem_filter, mem_union]
    constructor
    · rintro ⟨⟨-, hno⟩ | hr, hname⟩
      · exact absurd hname (by rw [hno]; decide)
      · exact ⟨hr, hname⟩
    · exact fun h => ⟨.inr h.1, h.2⟩
  unfold file dossier
  rw [hrows]
  simp only [update_self]

theorem Agree.wait (h : Agree uin s s') (t : Time) : Agree uin (s.wait t) (s'.wait t) where
  now := congrArg (· + t) h.now
  dossiers := h.dossiers.later (Nat.le_add_right ..)

/-- Serving a request: the same answer, and the islands still agree. -/
theorem Agree.serve (h : Agree uin s s') (v : Visit) :
    (s.serve cfg uin v).1 = (s'.serve cfg uin v).1 ∧
      Agree uin (s.serve cfg uin v).2 (s'.serve cfg uin v).2 := by
  have hwait := h.wait v.wait
  unfold Island.serve
  cases v.refusal with
  | some e => exact ⟨rfl, hwait⟩
  | none =>
    dsimp only
    have hdone := hwait.dossiers.respond cfg uin v.request
    rw [← hwait.now]
    refine ⟨hdone.1, ⟨hwait.now, ?_⟩⟩
    rw [dossier_file, dossier_file]
    exact ⟨congrArg (filter _) hdone.2.rows, hdone.2.devices, hdone.2.revoked⟩

/-- A whole history gets the same answers. -/
theorem Agree.answers (later : List Visit) :
    ∀ {s s' : Island}, Agree uin s s' → s.answers cfg uin later = s'.answers cfg uin later := by
  induction later with
  | nil => exact fun _ => rfl
  | cons v rest ih =>
    intro s s' h
    obtain ⟨hanswer, hagree⟩ := h.serve cfg v
    exact congrArg₂ List.cons hanswer (ih hagree)

/-- Nothing that leaving the number does not take away is there: nothing is alive at `t` under the
two keys, and no site under the number's name is somebody else's or has zeros before the number. -/
structure Spotless (uin : Uin) (t : Time) (s : Island) : Prop where
  devices : Expiring.find t (s.devices uin) = none
  revoked : Expiring.find t (s.revoked uin) = none
  sites : ∀ r ∈ s.rows, r.stray uin = false

/-- Of a number that was left without a trace nothing is kept. -/
theorem Spotless.rows_leave {d : Departure} {t : Time} (h : s.Spotless uin t)
    (hleave : s.leave uin d = some s') : ((s'.at_ t).dossier uin).rows = ∅ := by
  obtain ⟨rows, happly, rfl⟩ := map_eq_some_iff.mp hleave
  refine filter_eq_empty_iff.mpr fun r hr => ?_
  rw [d.names_apply happly h.sites r hr]
  decide

theorem Spotless.keys_leave {d : Departure} {t : Time} (h : s.Spotless uin t)
    (hleave : s.leave uin d = some s') :
    Expiring.find t (s'.devices uin) = none ∧ Expiring.find t (s'.revoked uin) = none := by
  obtain ⟨rows, -, rfl⟩ := map_eq_some_iff.mp hleave
  exact ⟨h.devices, h.revoked⟩

end Island

/-! ## The result -/

/-- An island on which nothing has happened. -/
def Island.empty : Island where
  now := 0
  rows := ∅
  epochs := fun _ => 0
  devices := fun _ => none
  revoked := fun _ => none

/-- The default of `REVOKE_COOLDOWN_SECONDS`. -/
def dayCooldown : Sessions.Config := ⟨days 1⟩

/-- A request at once, which meets no refusal elsewhere. -/
def Request.atOnce (r : Request) : Visit := ⟨0, none, r⟩

/-- The holder of number 777 befriends somebody, hands out a card and is written to. -/
def sociable : List Visit :=
  [.row .arrive, .row (.sendRequest 5 false false), .row (.respondContact 5 false true false),
    .row (.addCard "c0ffee"), .row (.postMessage 1 "hello")].map Request.atOnce

/-- The holder links a browser, which connects. -/
def linking : List Visit :=
  [.row .arrive, .device (.linkDevice 1 "Web"), .device (.markDeviceSeen 1)].map Request.atOnce

/-- The holder publishes a site under their number with a zero before it. -/
def publishing : List Visit :=
  [Request.row .arrive, .row (.putSite (.digits 1 777) "key" "page" 1)].map Request.atOnce

/-- Somebody else registers under the number and looks around. -/
def lookAround : List Visit :=
  [.row .arrive, .device .listDevices, .device .hasLinkedDevices, .row .listContacts,
    .row .listCards, .row (.fetchQueue 2 true)].map Request.atOnce

end RcqServer.Reuse
