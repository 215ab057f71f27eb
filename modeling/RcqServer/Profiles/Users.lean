import RcqServer.Guests.Store

/-!
# Rows of `users` and what others see of them

`models/user.py`, and the two builders of `routers/users.py` that make a `PublicUser` out of a row:
`from_model_for_viewer` behind `GET /users/{uin}/info`, and `from_model` behind `GET /users/search`.
Points in time are integers, in seconds.
-/

namespace RcqServer.Profiles

open Guests (Status)

/-- The seconds in `n` days. -/
def span (n : ℤ) : ℤ := n * 86400

/-- `POLICY_VALUES`; a column that holds one may be `NULL`. -/
inductive Policy
  | everyone | contacts | nobody
deriving DecidableEq

/-- `status`. -/
inductive Presence
  | online | away | dnd | invisible | offline

/-- The libsignal columns. -/
structure SignalKeys where
  signalIdentityKey : Option String
  signalRegistrationId : Option ℕ
  signedPrekeyId : Option ℕ
  signedPrekeyPublic : Option String
  signedPrekeySignature : Option String
  signedPrekeyUploadedAt : Option ℤ
  kyberPrekeyId : Option ℕ
  kyberPrekeyPublic : Option String
  kyberPrekeySignature : Option String
  kyberPrekeyUploadedAt : Option ℤ

/-- All of them `NULL`. -/
def SignalKeys.null : SignalKeys :=
  ⟨none, none, none, none, none, none, none, none, none, none⟩

/-- A row of `users`. -/
structure User where
  uin : Uin
  nickname : List Char
  identityKey : String
  signingKey : String
  signal : SignalKeys
  isSuspended : Bool
  badge : Option String
  badgeHidden : Bool
  badgesEarned : Option (List Char)
  residentSince : Option ℤ
  enteredVia : Option String
  /-- `NULL` for a native account. -/
  guestStatus : Option Status
  guestSince : Option ℤ
  keyUnprovenSince : Option ℤ
  invitesMinted : ℤ
  invitesPaidBase : ℤ
  hofOptIn : Bool
  hofApproved : Bool
  hofAvatar : Option String
  avatarMediaId : Option String
  avatarMediaKey : Option String
  hofTier : String
  hofBonusReports : ℤ
  hofBonusConfirmed : ℤ
  firstName : Option (List Char)
  lastName : Option (List Char)
  age : Option ℤ
  gender : Option String
  city : Option String
  country : Option String
  about : Option String
  interests : Option (List Char)
  homepage : Option String
  statusMessage : Option String
  status : Presence
  lastSeen : ℤ
  lastSeenVisibility : Option Policy
  profileVisibility : Option Policy
  profileCardPolicy : Option Policy
  genderVisibility : Option Policy
  groupInvitePolicy : Option Policy
  callPolicy : Option Policy
  readReceiptsVisibility : Option Policy
  pushPreferences : Option String
  createdAt : ℤ
  identityCreatedAt : Option ℤ

/-! ## Presence and marks -/

/-- `PRESENCE_FRESHNESS_SECONDS`. -/
def presenceFreshness : ℤ := 90

/-- `effective_status`: away, dnd and invisible count while the row is fresh. -/
def effectiveStatus (now : ℤ) (u : User) : Presence :=
  if now - presenceFreshness < u.lastSeen then
    match u.status with
    | .away => .away
    | .dnd => .dnd
    | .invisible => .invisible
    | .online | .offline => .online
  else .offline

/-- `visible_status`: invisible reads as offline. -/
def visibleStatus (now : ℤ) (u : User) : Presence :=
  match effectiveStatus now u with
  | .invisible => .offline
  | s => s

/-- `coarse_last_seen`: the hour. -/
def coarseLastSeen (t : ℤ) : ℤ := t / 3600 * 3600

/-- `badge_for_viewer`. -/
def badgeForViewer (u : User) (viewer : Uin) : Option String :=
  if u.badgeHidden ∧ viewer ≠ u.uin then none else u.badge

/-- The parts of a comma-separated text that are not empty. -/
def tags (text : Option (List Char)) : List (List Char) :=
  ((text.getD []).splitOn ',').filter (!·.isEmpty)

/-- `earned_badges`. -/
def earnedBadges (u : User) : List (List Char) :=
  let held := ((tags u.badgesEarned).map strip).filter (!·.isEmpty)
  let worn := (u.badge.map String.toList).filter (!·.isEmpty)
  if strip (u.badgesEarned.getD []) = [] then worn.toList
  else held ++ (worn.filter fun b => !held.contains b).toList

/-! ## Gates -/

/-- One of the tri-state settings, for an outsider; `NULL` reads as the default. -/
def Policy.admits (default : Policy) (setting : Option Policy) (isContact : Bool) : Bool :=
  match setting.getD default with
  | .everyone => true
  | .contacts => isContact
  | .nobody => false

/-- `card_openable_for_viewer`. -/
def cardOpenableForViewer (u : User) (viewer : Uin) (isContact : Bool) : Bool :=
  viewer == u.uin || Policy.admits .everyone u.profileCardPolicy isContact

/-- `_last_seen_for_viewer`. -/
def lastSeenForViewer (u : User) (viewer : Uin) (isContact : Bool) : Option ℤ :=
  if viewer = u.uin then some u.lastSeen
  else if Policy.admits .everyone u.lastSeenVisibility isContact then some (coarseLastSeen u.lastSeen)
  else none

/-- `_profile_visible_for_viewer`. -/
def profileVisibleForViewer (u : User) (viewer : Uin) (isContact : Bool) : Bool :=
  viewer == u.uin || Policy.admits .everyone u.profileVisibility isContact

/-- `_gender_for_viewer`. -/
def genderForViewer (u : User) (viewer : Uin) (isContact : Bool) : Option String :=
  if viewer = u.uin ∨ Policy.admits .nobody u.genderVisibility isContact = true then u.gender
  else none

/-! ## The two builders -/

/-- What only the owner of a row is told. -/
structure OwnerView where
  badgeHidden : Bool
  badgesEarned : List (List Char)
  residentSince : Option ℤ
  enteredVia : Option String
  lastSeenVisibility : Option Policy
  genderVisibility : Option Policy
  profileVisibility : Option Policy
  profileCardPolicy : Option Policy
  groupInvitePolicy : Option Policy
  callPolicy : Option Policy
  readReceiptsVisibility : Option Policy
  hofOptIn : Bool
  hofAvatar : Option String

/-- The fields that the profile gate covers. -/
structure Details where
  firstName : Option (List Char)
  lastName : Option (List Char)
  age : Option ℤ
  gender : Option String
  city : Option String
  country : Option String
  about : Option String
  interests : List (List Char)
  homepage : Option String
  statusMessage : Option String

def Details.hidden : Details := ⟨none, none, none, none, none, none, none, [], none, none⟩

/-- The details of a row, with the gender that the viewer may see. -/
def User.details (u : User) (gender : Option String) : Details where
  firstName := u.firstName
  lastName := u.lastName
  age := u.age
  gender := gender
  city := u.city
  country := u.country
  about := u.about
  interests := tags u.interests
  homepage := u.homepage
  statusMessage := u.statusMessage

/-- `PublicUser`.  `home` names the island of a backup copy. -/
structure PublicUser where
  uin : Uin
  nickname : List Char
  badge : Option String
  details : Details
  status : Presence
  identityKey : String
  signingKey : String
  signalIdentityKey : Option String
  signalRegistrationId : Option ℕ
  lastSeen : Option ℤ
  guest : Bool
  profileOpenable : Bool
  avatarMediaId : Option String
  avatarMediaKey : Option String
  owner : Option OwnerView
  home : Option (String × Uin)

def User.ownerView (u : User) : OwnerView where
  badgeHidden := u.badgeHidden
  badgesEarned := earnedBadges u
  residentSince := u.residentSince
  enteredVia := u.enteredVia
  lastSeenVisibility := u.lastSeenVisibility
  genderVisibility := u.genderVisibility
  profileVisibility := u.profileVisibility
  profileCardPolicy := u.profileCardPolicy
  groupInvitePolicy := u.groupInvitePolicy
  callPolicy := u.callPolicy
  readReceiptsVisibility := u.readReceiptsVisibility
  hofOptIn := u.hofOptIn
  hofAvatar := u.hofAvatar

/-- `from_model_for_viewer`. -/
def fromModelForViewer (now : ℤ) (u : User) (viewer : Uin) (isContact sharesGroup : Bool) :
    PublicUser :=
  let self := viewer == u.uin
  let openable := cardOpenableForViewer u viewer isContact
  let visible := profileVisibleForViewer u viewer isContact && openable
  let avatarOk := self || isContact || sharesGroup
  { uin := u.uin
    nickname := u.nickname
    badge := badgeForViewer u viewer
    details := if visible then u.details (genderForViewer u viewer isContact) else .hidden
    status := if self then u.status else visibleStatus now u
    identityKey := u.identityKey
    signingKey := u.signingKey
    signalIdentityKey := u.signal.signalIdentityKey
    signalRegistrationId := u.signal.signalRegistrationId
    lastSeen := if openable then lastSeenForViewer u viewer isContact else none
    guest := (self || sharesGroup) && u.guestStatus.isSome
    profileOpenable := openable
    avatarMediaId := if avatarOk then u.avatarMediaId else none
    avatarMediaKey := if avatarOk then u.avatarMediaKey else none
    owner := if self then some u.ownerView else none
    home := none }

/-- `from_model`: the gender and the status are those of the row. -/
def fromModel (u : User) (viewer : Uin) (isContact withKeys : Bool) : PublicUser :=
  let openable := cardOpenableForViewer u viewer isContact
  let visible := u.profileVisibility.getD .everyone == .everyone && openable
  { uin := u.uin
    nickname := u.nickname
    badge := badgeForViewer u viewer
    details := if visible then u.details u.gender else .hidden
    status := u.status
    identityKey := if withKeys then u.identityKey else ""
    signingKey := if withKeys then u.signingKey else ""
    signalIdentityKey := if withKeys then u.signal.signalIdentityKey else none
    signalRegistrationId := u.signal.signalRegistrationId
    lastSeen := none
    guest := false
    profileOpenable := openable
    avatarMediaId := none
    avatarMediaKey := none
    owner := none
    home := none }

end RcqServer.Profiles
