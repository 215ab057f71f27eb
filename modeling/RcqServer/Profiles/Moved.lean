import RcqServer.Profiles.Users

/-!
# The account after a change of number

`_perform_migration` (`routers/migrate.py`) writes a new row of `users` and copies the columns of the
old one by name, so a column that is left out of the list is reset to its default.  Two that describe
the person are left out: `badge_hidden`, and `invites_paid_base`, from which the paid invites of
`routers/invites.py` are counted.

The free invites depend on a third thing.  They go to accounts that look like a person
(`services/account_signal.py`), for which the account must have been seen a day after `created_at`,
and that column starts again with the number.

The result says exactly for which rows a move changes nothing of what describes the person, of the
invites, and of what others may see.
-/

namespace RcqServer.Profiles

open Option

/-! ## The new row -/

/-- The row that `_perform_migration` adds, at the time it is written. -/
def User.moved (u : User) (target : Uin) (now : ℤ) : User where
  uin := target
  nickname := u.nickname
  identityKey := u.identityKey
  signingKey := u.signingKey
  signal := .null
  firstName := u.firstName
  lastName := u.lastName
  age := u.age
  gender := u.gender
  city := u.city
  country := u.country
  about := u.about
  interests := u.interests
  homepage := u.homepage
  statusMessage := u.statusMessage
  avatarMediaId := u.avatarMediaId
  avatarMediaKey := u.avatarMediaKey
  status := .offline
  isSuspended := u.isSuspended
  badge := u.badge
  lastSeenVisibility := u.lastSeenVisibility
  genderVisibility := u.genderVisibility
  profileVisibility := u.profileVisibility
  profileCardPolicy := u.profileCardPolicy
  groupInvitePolicy := u.groupInvitePolicy
  callPolicy := u.callPolicy
  readReceiptsVisibility := u.readReceiptsVisibility
  pushPreferences := u.pushPreferences
  identityCreatedAt := some (u.identityCreatedAt.getD u.createdAt)
  residentSince := u.residentSince
  invitesMinted := u.invitesMinted
  enteredVia := u.enteredVia
  guestStatus := u.guestStatus
  guestSince := u.guestSince
  keyUnprovenSince := u.keyUnprovenSince
  badgesEarned := u.badgesEarned
  hofOptIn := u.hofOptIn
  hofApproved := u.hofApproved
  hofAvatar := u.hofAvatar
  hofTier := u.hofTier
  hofBonusReports := u.hofBonusReports
  hofBonusConfirmed := u.hofBonusConfirmed
  -- not in the list: the defaults of the columns
  badgeHidden := false
  invitesPaidBase := 0
  lastSeen := now
  createdAt := now

/-- The columns that describe the person: the row without the number, the presence, the libsignal
keys and the time the number began.  When the person joined is read from either column. -/
def User.person (u : User) : User :=
  { u with
    uin := 0
    signal := .null
    status := .offline
    lastSeen := 0
    createdAt := 0
    identityCreatedAt := some (u.identityCreatedAt.getD u.createdAt) }

/-- The copy loses two columns and no other. -/
theorem person_moved_iff (u : User) (target : Uin) (now : ℤ) :
    (u.moved target now).person = u.person ↔ u.badgeHidden = false ∧ u.invitesPaidBase = 0 := by
  constructor
  · intro h
    have hhidden := congrArg User.badgeHidden h
    have hbase := congrArg User.invitesPaidBase h
    exact ⟨hhidden.symm, hbase.symm⟩
  · rintro ⟨hhidden, hbase⟩
    simp [User.person, User.moved, hhidden, hbase]

/-! ## Invites (`routers/invites.py`) -/

/-- The settings of the island that the invites depend on, as they are stored. -/
structure InviteSettings where
  residentInvitesTotal : ℤ
  residentInvitesPeriodDays : ℤ
  freeInvitesTotal : ℤ
  /-- `free_invites_before`; `none` if it does not parse. -/
  freeInvitesBefore : Option ℤ
  freeInvitesMinAgeDays : ℤ

/-- The period of `_quota`, in days: a setting of 0 reads as 30. -/
def InviteSettings.period (s : InviteSettings) : ℤ :=
  max 1 (if s.residentInvitesPeriodDays = 0 then 30 else s.residentInvitesPeriodDays)

/-- `_accrued`: how many a resident has earned, and when the next one comes. -/
def accrued (u : User) (total period : ℤ) (now : ℤ) : ℤ × Option ℤ :=
  match u.residentSince with
  | none => (0, none)
  | some since =>
    if total ≤ 0 then (0, none)
    else
      let base := max 0 u.invitesPaidBase
      let granted := min total (base + 1 + (now - since) / span period)
      if total ≤ granted then (granted, none)
      else (granted, some (since + span (period * (granted - base))))

/-- `_joined`. -/
def joined (u : User) : ℤ := u.identityCreatedAt.getD u.createdAt

/-- `_free_eligible`. -/
def freeEligible (u : User) (total : ℤ) (cutoff : Option ℤ) : Bool :=
  decide (0 < total) && u.residentSince.isNone && u.enteredVia.isNone &&
    cutoff.any fun c => decide (joined u < c)

/-- `_accrued_free`. -/
def accruedFree (u : User) (total : ℤ) (cutoff : Option ℤ) (minAgeDays period : ℤ)
    (now : ℤ) : ℤ × Option ℤ :=
  match cutoff with
  | none => (0, none)
  | some cutoff =>
    let anchor := max cutoff (joined u + span minAgeDays)
    if total ≤ 0 then (0, none)
    else if now < anchor then (0, some anchor)
    else
      let granted := min total (1 + (now - anchor) / span period)
      if total ≤ granted then (granted, none)
      else (granted, some (anchor + span (period * granted)))

/-- `nickname LIKE 'user-%'`. -/
def generatedName (nickname : List Char) : Bool := "user-".toList.isPrefixOf nickname

/-- `looks_like_a_person`.  `ties`: some other table has a row of the account. -/
def looksLikeAPerson (u : User) (ties : Bool) : Bool :=
  (!generatedName u.nickname || u.avatarMediaId.isSome || ties) &&
    decide (span 1 ≤ u.lastSeen - u.createdAt)

/-- Where an allowance comes from. -/
inductive InviteKind
  | resident | free | nobody
deriving DecidableEq

/-- What `GET /invites` says about the allowance. -/
structure Allowance where
  kind : InviteKind
  total : ℤ
  granted : ℤ
  used : ℤ
  remaining : ℤ
  nextAt : Option ℤ

/-- `_source`: kind, total, granted and the next one. -/
def source (s : InviteSettings) (ties : Bool) (now : ℤ) (u : User) :
    InviteKind × ℤ × ℤ × Option ℤ :=
  if u.residentSince.isSome then
    (.resident, s.residentInvitesTotal, accrued u s.residentInvitesTotal s.period now)
  else if freeEligible u s.freeInvitesTotal s.freeInvitesBefore && looksLikeAPerson u ties then
    (.free, s.freeInvitesTotal, accruedFree u s.freeInvitesTotal s.freeInvitesBefore
      (max 0 s.freeInvitesMinAgeDays) s.period now)
  else (.nobody, s.residentInvitesTotal, 0, none)

/-- `invites_out`. -/
def invitesOut (s : InviteSettings) (ties : Bool) (now : ℤ) (u : User) : Allowance :=
  let found := source s ties now u
  { kind := found.1
    total := found.2.1
    granted := found.2.2.1
    used := u.invitesMinted
    remaining := max 0 (found.2.2.1 - u.invitesMinted)
    nextAt := found.2.2.2 }

/-! ## When the next invite comes -/

theorem span_mul (period n : ℤ) : span (period * n) = n * span period := by
  rw [span, span, mul_comm period, mul_assoc]

section

variable {u : User} {total period now t : ℤ} (hperiod : 0 < span period)
include hperiod

theorem lt_granted_iff {b since n : ℤ} :
    n < min total (b + 1 + (t - since) / span period) ↔
      n < total ∧ since + span (period * (n - b)) ≤ t := by
  have hdiv := Int.le_ediv_iff_mul_le (a := n - b) (b := t - since) hperiod
  rw [lt_min_iff, span_mul]
  exact and_congr_right fun _ => by omega

theorem accrued_lt_iff : (accrued u total period now).1 < (accrued u total period t).1 ↔
    ∃ due ∈ (accrued u total period now).2, due ≤ t := by
  unfold accrued
  split
  · simp
  · split
    · simp
    · simp only [apply_ite Prod.fst, ite_self]
      rw [lt_granted_iff hperiod]
      split <;> simp_all

theorem accruedFree_lt_iff {cutoff : Option ℤ} {minAge : ℤ} :
    (accruedFree u total cutoff minAge period now).1 <
        (accruedFree u total cutoff minAge period t).1 ↔
      ∃ due ∈ (accruedFree u total cutoff minAge period now).2, due ≤ t := by
  unfold accruedFree
  cases cutoff with
  | none => simp
  | some cutoff =>
    dsimp only
    generalize max cutoff (joined u + span minAge) = anchor
    split
    · simp
    · simp only [apply_ite Prod.fst, ite_self]
      -- nothing is granted before the anchor, and nothing below zero after it
      have hlate : ∀ n, 0 ≤ n → (n < (if t < anchor then 0 else
          min total (1 + (t - anchor) / span period)) ↔
            n < total ∧ anchor + span (period * n) ≤ t) := by
        intro n hn
        have hspan : 0 ≤ span (period * n) := span_mul period n ▸ mul_nonneg hn hperiod.le
        split
        · omega
        · simpa using lt_granted_iff hperiod (b := 0)
      by_cases hearly : now < anchor
      · simp_all [span]
      · have hdiv : 0 ≤ (now - anchor) / span period := Int.ediv_nonneg (by omega) hperiod.le
        rw [if_neg hearly, if_neg hearly, hlate _ (by omega)]
        split <;> simp_all

end

/-- **The next invite.**  `next_at` is the first instant at which more invites are granted than now;
if there is none, there will never be more. -/
theorem next_invite_is_first (s : InviteSettings) (ties : Bool) (u : User) (now t : ℤ) :
    (invitesOut s ties now u).granted < (invitesOut s ties t u).granted ↔
      ∃ due ∈ (invitesOut s ties now u).nextAt, due ≤ t := by
  have hperiod : 0 < span s.period := by
    unfold span InviteSettings.period
    omega
  unfold invitesOut source
  split
  · exact accrued_lt_iff hperiod
  · split
    · exact accruedFree_lt_iff hperiod
    · simp

/-! ## A move changes nothing -/

/-- The row after the account was seen at some time, if it was. -/
def User.seen (u : User) (stamp : Option ℤ) : User :=
  { u with lastSeen := stamp.getD u.lastSeen }

/-- What another account is shown of a row, apart from the number, the presence and the libsignal
keys; of the time it was last seen, whether it is shown. -/
def shown (u : User) (viewer : Uin) (isContact sharesGroup : Bool) : PublicUser :=
  let card := fromModelForViewer 0 u viewer isContact sharesGroup
  { card with
    uin := 0
    status := .offline
    signalIdentityKey := none
    signalRegistrationId := none
    lastSeen := card.lastSeen.map fun _ => 0 }

/-- After the move of a row at some time, the columns of the person are what they were, and from
then on the invites and what others are shown are what they would have been without the move. -/
structure Kept (u : User) (target : Uin) (movedAt : ℤ) : Prop where
  person : (u.moved target movedAt).person = u.person
  invites : ∀ (s : InviteSettings) (ties : Bool) (now : ℤ) (stamp : Option ℤ),
    movedAt ≤ now → (∀ t ∈ stamp, movedAt ≤ t) →
      invitesOut s ties now ((u.moved target movedAt).seen stamp) =
        invitesOut s ties now (u.seen stamp)
  hidden : ∀ (viewer : Uin) (isContact sharesGroup : Bool), viewer ≠ u.uin → viewer ≠ target →
    shown (u.moved target movedAt) viewer isContact sharesGroup =
      shown u viewer isContact sharesGroup

section

variable {u : User} {target : Uin} {movedAt : ℤ} {stamp : Option ℤ} {ties : Bool}

theorem freeEligible_moved (total : ℤ) (cutoff : Option ℤ) :
    freeEligible ((u.moved target movedAt).seen stamp) total cutoff =
      freeEligible (u.seen stamp) total cutoff := rfl

theorem accruedFree_moved (total : ℤ) (cutoff : Option ℤ) (minAge period now : ℤ) :
    accruedFree ((u.moved target movedAt).seen stamp) total cutoff minAge period now =
      accruedFree (u.seen stamp) total cutoff minAge period now := rfl

/-- Whether the row looks like a person, if something in another table speaks for it. -/
theorem looksLikeAPerson_seen (u : User) (stamp : Option ℤ) :
    looksLikeAPerson (u.seen stamp) true = true ↔ span 1 ≤ stamp.getD u.lastSeen - u.createdAt := by
  simp only [looksLikeAPerson, User.seen, Bool.or_true, Bool.true_and]
  exact decide_eq_true_iff

/-- Settings under which every account that may have free invites has one. -/
def oneFreeInvite (u : User) : InviteSettings where
  residentInvitesTotal := 0
  residentInvitesPeriodDays := 1
  freeInvitesTotal := 1
  freeInvitesBefore := some (joined u + 1)
  freeInvitesMinAgeDays := 0

/-- Under these settings the invites tell whether the account looks like a person. -/
theorem kind_oneFreeInvite {u v : User} (hjoined : joined v = joined u)
    (hresident : v.residentSince = none) (hentered : v.enteredVia = none) (now : ℤ) :
    (invitesOut (oneFreeInvite u) true now v).kind = .free ↔ looksLikeAPerson v true = true := by
  have heligible : freeEligible v 1 (some (joined u + 1)) = true := by
    simp [freeEligible, hresident, hentered, hjoined]
  simp only [invitesOut, source, oneFreeInvite, hresident, heligible, isSome_none,
    Bool.false_eq_true, if_false, Bool.true_and]
  split
  · next h => simp [h]
  · next h => simp [h]

/-- If the invites of an account that may have free ones stay the same, the number began at the time
of the move. -/
theorem Kept.begins (h : Kept u target movedAt) (hresident : u.residentSince = none)
    (hentered : u.enteredVia = none) : u.createdAt = movedAt ∧ u.lastSeen < movedAt + span 1 := by
  have hperson : ∀ stamp : Option ℤ, (∀ t ∈ stamp, movedAt ≤ t) →
      (span 1 ≤ stamp.getD movedAt - movedAt ↔ span 1 ≤ stamp.getD u.lastSeen - u.createdAt) := by
    intro stamp hlater
    have hsame := congrArg Allowance.kind
      (h.invites (oneFreeInvite u) true movedAt stamp le_rfl hlater)
    have hmoved := kind_oneFreeInvite (u := u) (v := (u.moved target movedAt).seen stamp) rfl
      hresident hentered movedAt
    have hold := kind_oneFreeInvite (u := u) (v := u.seen stamp) rfl hresident hentered movedAt
    rw [hsame] at hmoved
    have hiff := hmoved.symm.trans hold
    rw [looksLikeAPerson_seen, looksLikeAPerson_seen] at hiff
    exact hiff
  have hday : span 1 = 86400 := by decide
  have hnone := hperson none (by simp)
  have hjust := hperson (some (movedAt + 86400)) (by simp)
  have hshort := hperson (some (movedAt + 86399)) (by simp)
  simp only [getD_none, getD_some, hday] at hnone hjust hshort
  rw [hday]
  omega

/-- The invites of a resident are counted from columns that the copy has. -/
theorem invitesOut_moved_of_resident (hbase : u.invitesPaidBase = 0)
    (hresident : u.residentSince.isSome) (s : InviteSettings) (now : ℤ) :
    invitesOut s ties now ((u.moved target movedAt).seen stamp) =
      invitesOut s ties now (u.seen stamp) := by
  have haccrued : ∀ total period,
      accrued ((u.moved target movedAt).seen stamp) total period now =
        accrued (u.seen stamp) total period now := by
    intro total period
    simp [accrued, User.moved, User.seen, hbase]
  have hmoved : ((u.moved target movedAt).seen stamp).residentSince.isSome := hresident
  have hold : (u.seen stamp).residentSince.isSome := hresident
  unfold invitesOut source
  rw [if_pos hmoved, if_pos hold, haccrued]
  rfl

/-- Who is no resident and came in through a door has no invites, before and after. -/
theorem invitesOut_moved_of_entered (hresident : u.residentSince = none)
    (hentered : u.enteredVia.isSome) (s : InviteSettings) (now : ℤ) :
    invitesOut s ties now ((u.moved target movedAt).seen stamp) =
      invitesOut s ties now (u.seen stamp) := by
  have hdoor : u.enteredVia.isNone = false := by simpa using hentered
  simp [invitesOut, source, freeEligible, User.moved, User.seen, hresident, hdoor]

/-- A number that began at the time of the move is as old as the new one. -/
theorem invitesOut_moved_of_begins (hresident : u.residentSince = none)
    (hcreated : u.createdAt = movedAt) (hseen : u.lastSeen < movedAt + span 1)
    (s : InviteSettings) (now : ℤ) : invitesOut s ties now ((u.moved target movedAt).seen stamp) =
      invitesOut s ties now (u.seen stamp) := by
  have hperson : looksLikeAPerson ((u.moved target movedAt).seen stamp) ties =
      looksLikeAPerson (u.seen stamp) ties := by
    cases stamp with
    | some t => simp [looksLikeAPerson, User.moved, User.seen, hcreated]
    | none =>
      have hday : span 1 = 86400 := by decide
      have hold : ¬span 1 ≤ u.lastSeen - movedAt := by
        rw [hday] at hseen ⊢
        omega
      have hnew : ¬span 1 ≤ (0 : ℤ) := by decide
      simp [looksLikeAPerson, User.moved, User.seen, hcreated, hold, hnew]
  have hmoved : ((u.moved target movedAt).seen stamp).residentSince = none := hresident
  have hold : (u.seen stamp).residentSince = none := hresident
  unfold invitesOut source
  rw [hmoved, hold, hperson, freeEligible_moved, accruedFree_moved]
  rfl

/-- Whether another account is shown when this one was last seen. -/
theorem map_lastSeenForViewer (u : User) {viewer : Uin} (hself : viewer ≠ u.uin) (isContact : Bool) :
    ((lastSeenForViewer u viewer isContact).map fun _ => (0 : ℤ)) =
      if Policy.admits .everyone u.lastSeenVisibility isContact then some 0 else none := by
  unfold lastSeenForViewer
  rw [if_neg hself]
  split <;> rfl

theorem shown_moved (hhidden : u.badgeHidden = false) {viewer : Uin} (hself : viewer ≠ u.uin)
    (htarget : viewer ≠ target) (isContact sharesGroup : Bool) :
    shown (u.moved target movedAt) viewer isContact sharesGroup =
      shown u viewer isContact sharesGroup := by
  have hold : (viewer == u.uin) = false := beq_false_of_ne hself
  have hnew : (viewer == (u.moved target movedAt).uin) = false := beq_false_of_ne htarget
  have hopen : cardOpenableForViewer (u.moved target movedAt) viewer isContact =
      cardOpenableForViewer u viewer isContact := by
    unfold cardOpenableForViewer
    rw [hold, hnew]
    rfl
  have hprofile : profileVisibleForViewer (u.moved target movedAt) viewer isContact =
      profileVisibleForViewer u viewer isContact := by
    unfold profileVisibleForViewer
    rw [hold, hnew]
    rfl
  have hgender : genderForViewer (u.moved target movedAt) viewer isContact =
      genderForViewer u viewer isContact := by
    simp only [genderForViewer, hself, show viewer ≠ (u.moved target movedAt).uin from htarget,
      false_or]
    rfl
  have hbadge : badgeForViewer (u.moved target movedAt) viewer = badgeForViewer u viewer := by
    simp [badgeForViewer, hhidden, User.moved]
  have hseen : (if cardOpenableForViewer u viewer isContact then
        lastSeenForViewer (u.moved target movedAt) viewer isContact else none).map
          (fun _ => (0 : ℤ)) =
      (if cardOpenableForViewer u viewer isContact then
        lastSeenForViewer u viewer isContact else none).map fun _ => 0 := by
    split
    · rw [map_lastSeenForViewer _ hself, map_lastSeenForViewer _ htarget]
      rfl
    · rfl
  simp only [shown, fromModelForViewer, hold, hnew, hopen, hprofile, hgender, hbadge, hseen]
  rfl

end

/-! ## The result -/

/-- A move keeps the person, their invites and what they hide exactly if the mark is not hidden, no
free invites were spent before a payment, and the account cannot have free invites. -/
theorem move_keeps_person_iff (u : User) (target : Uin) (movedAt : ℤ) :
    Kept u target movedAt ↔ u.badgeHidden = false ∧ u.invitesPaidBase = 0 ∧
      (u.residentSince.isSome ∨ u.enteredVia.isSome ∨
        (u.createdAt = movedAt ∧ u.lastSeen < movedAt + span 1)) := by
  constructor
  · intro h
    obtain ⟨hhidden, hbase⟩ := (person_moved_iff u target movedAt).mp h.person
    refine ⟨hhidden, hbase, ?_⟩
    cases hresident : u.residentSince with
    | some since => exact .inl rfl
    | none =>
      cases hentered : u.enteredVia with
      | some door => exact .inr (.inl rfl)
      | none => exact .inr (.inr (h.begins hresident hentered))
  · rintro ⟨hhidden, hbase, hinvites⟩
    refine ⟨(person_moved_iff u target movedAt).mpr ⟨hhidden, hbase⟩, ?_, ?_⟩
    · intro s ties now stamp _ _
      cases hresident : u.residentSince with
      | some since => exact invitesOut_moved_of_resident hbase (by rw [hresident]; rfl) s now
      | none =>
        rcases hinvites with hsome | hentered | ⟨hcreated, hseen⟩
        · rw [hresident] at hsome
          cases hsome
        · exact invitesOut_moved_of_entered hresident hentered s now
        · exact invitesOut_moved_of_begins hresident hcreated hseen s now
    · intro viewer isContact sharesGroup hself htarget
      exact shown_moved hhidden hself htarget isContact sharesGroup

/-! ## Rows that a move changes -/

/-- An account from before entry was sold, a year old and in use. -/
def legacyUser : User where
  uin := 777
  nickname := "ann".toList
  identityKey := "ik"
  signingKey := "sk"
  signal := .null
  isSuspended := false
  badge := none
  badgeHidden := false
  badgesEarned := none
  residentSince := none
  enteredVia := none
  guestStatus := none
  guestSince := none
  keyUnprovenSince := none
  invitesMinted := 0
  invitesPaidBase := 0
  hofOptIn := false
  hofApproved := false
  hofAvatar := none
  avatarMediaId := none
  avatarMediaKey := none
  hofTier := "gold"
  hofBonusReports := 0
  hofBonusConfirmed := 0
  firstName := none
  lastName := none
  age := none
  gender := none
  city := none
  country := none
  about := none
  interests := none
  homepage := none
  statusMessage := none
  status := .online
  lastSeen := span 365
  lastSeenVisibility := some .contacts
  profileVisibility := some .everyone
  profileCardPolicy := some .everyone
  genderVisibility := some .nobody
  groupInvitePolicy := some .contacts
  callPolicy := some .contacts
  readReceiptsVisibility := some .contacts
  pushPreferences := none
  createdAt := 0
  identityCreatedAt := none

/-- It has paid on day 365, after one free invite, and does not wear the mark of it. -/
def discreetResident : User :=
  { legacyUser with
    badge := some "resident"
    badgeHidden := true
    badgesEarned := some "resident".toList
    residentSince := some (span 365)
    enteredVia := none
    invitesMinted := 1
    invitesPaidBase := 1 }

/-- Five invites for residents and three free ones, one a month, from day 100 on. -/
def usualInvites : InviteSettings := ⟨5, 30, 3, some (span 100), 30⟩

/-- After a move on day 366 the hidden mark is shown, the invite that came with the payment is gone,
and so is the free allowance of a legacy account. -/
theorem move_loses_hidden_badge_and_invites : badgeForViewer discreetResident 9 = none ∧
    badgeForViewer (discreetResident.moved 1000 (span 366)) 9 = some "resident" ∧
    (invitesOut usualInvites true (span 366) discreetResident).remaining = 1 ∧
    (invitesOut usualInvites true (span 366) (discreetResident.moved 1000 (span 366))).remaining = 0 ∧
    (invitesOut usualInvites true (span 366) legacyUser).kind = .free ∧
    (invitesOut usualInvites true (span 366) (legacyUser.moved 1000 (span 366))).kind = .nobody := by
  decide +kernel

end RcqServer.Profiles
