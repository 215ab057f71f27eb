import RcqServer.Basic
import Mathlib.Order.Lattice.Nat

/-!
# The rows of a number

`services/uin_rows.py` keeps the list of the columns that name an account.  A burn deletes the rows
that the list finds (`purge_uin_rows`, `services/account_delete.py`), a migration moves them to
another number (`rekey_uin_rows`, `routers/migrate.py`).  The database is the set of its rows; of
the tables of the list, those that the queue, the contacts, the rooms, the vault, the sites and the
guest cards are served from.

No column of a row that is left names the number afterwards (`names_purgeAccount`,
`names_performMigration`).  What may be left is a site: its name is not a column, and `_move_sites`
deletes the name of the number only as `str` writes it.
-/

namespace RcqServer.Reuse

open Finset

/-- The state of a contact request. -/
inductive RequestState
  | pending | accepted | declined
deriving DecidableEq

/-- The name of a site.  One made of digits is a number, with so many zeros before it. -/
inductive SiteName
  | word (text : String)
  | digits (zeros : ℕ) (value : ℕ)
deriving DecidableEq

/-- A row, with its table. -/
inductive Row
  | user (uin : Uin)
  | contact (ownerUin contactUin : Uin) (blocked : Bool)
  | contactRequest (fromUin toUin : Uin) (state : RequestState)
  | offlineMessage (id : ℕ) (toUin : Uin) (seq : ℕ) (payload : String)
  | mailboxSeq (toUin : Uin) (nextSeq : ℕ)
  | queueCursor (uin : Uin) (device : DeviceId) (lastDirectId : ℕ) (updatedAt : Time)
  | group (id : ℕ) (ownerUin : Uin)
  | groupMember (group : ℕ) (uin : Uin) (role : String)
  | vaultSlot (uin : Uin) (slot : String) (blob : Option String) (version : ℕ)
  | guestCard (cardHash : String) (ownerUin : Uin) (revoked : Bool)
  | site (name : SiteName) (ownerUin : Uin) (ownerKey : String) (version : ℕ) (manifest : String)
  | deviceToken (uin : Uin) (device : DeviceId)
deriving DecidableEq

/-- A column that holds an account number. -/
inductive Column
  | userUin
  | contactOwner | contactContact
  | requestFrom | requestTo
  | messageTo | mailboxSeqTo
  | groupOwner | memberUin
  | cursorUin | vaultUin | cardOwner
  | siteOwner | tokenUin
deriving DecidableEq

/-- The account numbers in a row, by column. -/
def Row.columns : Row → List (Column × Uin)
  | .user u => [(.userUin, u)]
  | .contact o c _ => [(.contactOwner, o), (.contactContact, c)]
  | .contactRequest a b _ => [(.requestFrom, a), (.requestTo, b)]
  | .offlineMessage _ u _ _ => [(.messageTo, u)]
  | .mailboxSeq u _ => [(.mailboxSeqTo, u)]
  | .queueCursor u _ _ _ => [(.cursorUin, u)]
  | .group _ o => [(.groupOwner, o)]
  | .groupMember _ u _ => [(.memberUin, u)]
  | .vaultSlot u _ _ _ => [(.vaultUin, u)]
  | .guestCard _ o _ => [(.cardOwner, o)]
  | .site _ o _ _ _ => [(.siteOwner, o)]
  | .deviceToken u _ => [(.tokenUin, u)]

/-- The row with other account numbers. -/
def Row.mapUins (f : Column → Uin → Uin) : Row → Row
  | .user u => .user (f .userUin u)
  | .contact o c b => .contact (f .contactOwner o) (f .contactContact c) b
  | .contactRequest a b st => .contactRequest (f .requestFrom a) (f .requestTo b) st
  | .offlineMessage id u seq p => .offlineMessage id (f .messageTo u) seq p
  | .mailboxSeq u k => .mailboxSeq (f .mailboxSeqTo u) k
  | .queueCursor u d k t => .queueCursor (f .cursorUin u) d k t
  | .group g o => .group g (f .groupOwner o)
  | .groupMember g u r => .groupMember g (f .memberUin u) r
  | .vaultSlot u s b v => .vaultSlot (f .vaultUin u) s b v
  | .guestCard h o r => .guestCard h (f .cardOwner o) r
  | .site name o k v m => .site name (f .siteOwner o) k v m
  | .deviceToken u d => .deviceToken (f .tokenUin u) d

theorem Row.columns_mapUins (f : Column → Uin → Uin) (r : Row) :
    (r.mapUins f).columns = r.columns.map fun x => (x.1, f x.1 x.2) := by
  cases r <;> rfl

/-- The column of the row holds this number. -/
abbrev Row.Holds (r : Row) (c : Column) (uin : Uin) : Prop := (c, uin) ∈ r.columns

instance Row.decidableHolds (r : Row) (c : Column) (uin : Uin) : Decidable (r.Holds c uin) :=
  inferInstanceAs (Decidable ((c, uin) ∈ r.columns))

/-- The row is a site under a name that reads as this number. -/
def Row.signed (uin : Uin) : Row → Bool
  | .site (.digits _ value) _ _ _ _ => value == uin
  | _ => false

/-- The row says something about the account: a column holds its number, or it is a site under
the number's name. -/
def Row.names (uin : Uin) (r : Row) : Bool := r.columns.any (·.2 == uin) || r.signed uin

theorem Row.names_iff {uin : Uin} {r : Row} :
    r.names uin = true ↔ (∃ c, r.Holds c uin) ∨ r.signed uin = true := by
  simp [Row.names, Row.Holds]

/-! ## The list -/

/-- `PER_UIN_COLUMNS`, as far as its tables are modelled. -/
def perUinColumns : List Column :=
  [.contactOwner, .contactContact, .requestFrom, .requestTo, .messageTo, .mailboxSeqTo, .groupOwner,
    .memberUin, .cursorUin, .vaultUin, .cardOwner]

/-- The columns that are dealt with apart from the list. -/
theorem Column.listed (c : Column) :
    c ∈ perUinColumns ∨ c = .userUin ∨ c = .siteOwner ∨ c = .tokenUin := by
  cases c <;> decide

/-- `_THIRD_PARTY_UIN_COLUMNS`. -/
def Column.thirdParty : Column → Bool
  | .contactContact | .requestTo => true
  | _ => false

/-- The column is part of a unique key (`_unique_keys_containing`). -/
def Column.keyed : Column → Bool
  | .groupOwner | .cardOwner => false
  | _ => true

/-- The rest of the unique key of a third party's row. -/
def Row.other : Row → Option Uin
  | .contact owner _ _ => some owner
  | .contactRequest sender _ _ => some sender
  | _ => none

/-! ## Sites -/

/-- `_move_sites` deletes the site: the account is burned, or the name is the number. -/
def Row.dropsSite (old : Uin) (new : Option Uin) : Row → Bool
  | .site name owner _ _ _ => owner == old && (new.isNone || name == .digits 0 old)
  | _ => false

/-- The number in one column changes. -/
def Row.setColumn (c : Column) (old new : Uin) : Row → Row :=
  Row.mapUins fun c' u => if c' = c ∧ u = old then new else u

/-- `_move_sites`. -/
def moveSites (old : Uin) (new : Option Uin) (rows : Finset Row) : Finset Row :=
  (rows.filter fun r => !r.dropsSite old new).image fun r =>
    new.elim r fun new => r.setColumn .siteOwner old new

/-! ## Re-keying -/

/-- The counter that a row of `mailbox_seq` stands at. -/
def Row.counter : Row → ℕ
  | .mailboxSeq _ k => k
  | _ => 0

/-- The highest counter of the two mailboxes goes to the one that is moved. -/
def raiseSeq (old new : Uin) (rows : Finset Row) : Finset Row :=
  let highest := (rows.filter fun r =>
    r.Holds .mailboxSeqTo old ∨ r.Holds .mailboxSeqTo new).sup Row.counter
  rows.image fun r => if r.Holds .mailboxSeqTo old then .mailboxSeq old highest else r

/-- `_clear_destination`. -/
def clearDestination (c : Column) (old new : Uin) (rows : Finset Row) : Finset Row :=
  if c.keyed = false then rows
  else if c.thirdParty then
    rows.filter fun r =>
      ¬(r.Holds c new ∧ ∃ r' ∈ rows, r'.Holds c old ∧ r'.other = r.other)
  else
    (if c = .mailboxSeqTo then raiseSeq old new rows else rows).filter fun r => ¬r.Holds c new

/-- One round of the loop: the destination is cleared, then the column is updated. -/
def rekeyColumn (old new : Uin) (rows : Finset Row) (c : Column) : Finset Row :=
  (clearDestination c old new rows).image (Row.setColumn c old new)

/-- `rekey_uin_rows`. -/
def rekeyUinRows (old new : Uin) (rows : Finset Row) : Finset Row :=
  perUinColumns.foldl (rekeyColumn old new) (moveSites old (some new) rows)

/-! ## Purging -/

/-- `DELETE … WHERE column = uin`. -/
def purgeColumn (uin : Uin) (rows : Finset Row) (c : Column) : Finset Row :=
  rows.filter fun r => ¬r.Holds c uin

/-- `purge_uin_rows`. -/
def purgeUinRows (uin : Uin) (rows : Finset Row) : Finset Row :=
  perUinColumns.foldl (purgeColumn uin) (moveSites uin none rows)

/-! ## Leaving a number -/

/-- The room of a row of `groups` or `group_members`. -/
def Row.room : Row → Option ℕ
  | .group g _ => some g
  | .groupMember g _ _ => some g
  | _ => none

/-- The rooms of an account go, and with each room its members. -/
def dropOwnedRooms (uin : Uin) (rows : Finset Row) : Finset Row :=
  rows.filter fun r => ¬∃ g ∈ rows, g.Holds .groupOwner uin ∧ r.room.isSome ∧ r.room = g.room

/-- `purge_account`; `none` if nobody has the number. -/
def purgeAccount (uin : Uin) (rows : Finset Row) : Option (Finset Row) :=
  if Row.user uin ∈ rows then
    let rows := purgeColumn uin (dropOwnedRooms uin rows) .memberUin
    let rows := purgeColumn uin (purgeUinRows uin rows) .tokenUin
    some (purgeColumn uin rows .userUin)
  else none

/-- `_perform_migration`; `none` if the number has no account or the target has one. -/
def performMigration (old target : Uin) (rows : Finset Row) : Option (Finset Row) :=
  if Row.user old ∈ rows ∧ Row.user target ∉ rows then
    let rows := rekeyUinRows old target (insert (.user target) rows)
    some (purgeColumn old (purgeColumn old rows .tokenUin) .userUin)
  else none

/-- The ways to leave a number. -/
inductive Departure
  | burn
  | migrate (target : Uin)

def Departure.apply (uin : Uin) : Departure → Finset Row → Option (Finset Row)
  | .burn => purgeAccount uin
  | .migrate target => performMigration uin target

/-! ## What is left -/

/-- No row has the property. -/
def Without (P : Row → Prop) (rows : Finset Row) : Prop := ∀ r ∈ rows, ¬P r

theorem Without.filter {P : Row → Prop} {rows : Finset Row} (h : Without P rows) (q : Row → Prop)
    [DecidablePred q] : Without P (rows.filter q) :=
  fun r hr => h r (mem_of_mem_filter r hr)

/-- A property that a row only has after a step of the re-keying if it had it before. -/
structure Inherited (old new : Uin) (P : Row → Prop) : Prop where
  setColumn : ∀ c r, P (r.setColumn c old new) → P r
  counter : ∀ r k, r.Holds .mailboxSeqTo old → P (.mailboxSeq old k) → P r

variable {old new uin : Uin} {c : Column} {rows : Finset Row} {P : Row → Prop}

theorem Row.holds_setColumn {r : Row} {c' : Column} (hne : old ≠ new)
    (h : (r.setColumn c old new).Holds c' old) : c' ≠ c ∧ r.Holds c' old := by
  rw [Row.Holds, Row.setColumn, Row.columns_mapUins] at h
  obtain ⟨⟨c₀, u⟩, hmem, heq⟩ := List.mem_map.mp h
  obtain ⟨rfl, hu⟩ := Prod.mk.inj heq
  split at hu
  · exact absurd hu.symm hne
  · next hkept =>
      obtain rfl : u = old := hu
      exact ⟨fun hc => hkept ⟨hc, rfl⟩, hmem⟩

theorem Row.signed_setColumn (r : Row) : (r.setColumn c old new).signed uin = r.signed uin := by
  cases r with
  | site name owner key version manifest => cases name <;> rfl
  | _ => rfl

theorem inherited_holds (hne : old ≠ new) (c : Column) : Inherited old new (Row.Holds · c old) where
  setColumn _ _ h := (Row.holds_setColumn hne h).2
  counter r k hr h := by
    obtain rfl : c = .mailboxSeqTo := by simpa [Row.Holds, Row.columns] using h
    exact hr

theorem inherited_signed : Inherited old new (fun r => r.signed uin = true) where
  setColumn c r h := (r.signed_setColumn).symm.trans h
  counter _ _ _ h := by cases h

theorem Without.clearDestination (h : Without P rows) (hP : Inherited old new P) (c : Column) :
    Without P (clearDestination c old new rows) := by
  -- the counter of the mailbox is the only thing that is written
  have hraise : Without P (raiseSeq old new rows) := by
    intro r hr
    obtain ⟨r₀, hmem, rfl⟩ := mem_image.mp hr
    split
    · next hold => exact fun hr => h r₀ hmem (hP.counter r₀ _ hold hr)
    · exact h r₀ hmem
  unfold Reuse.clearDestination
  split
  · exact h
  · split
    · exact h.filter _
    · split
      · exact hraise.filter _
      · exact h.filter _

theorem Without.rekeyColumn (h : Without P rows) (hP : Inherited old new P) (c : Column) :
    Without P (rekeyColumn old new rows c) := by
  intro r hr
  obtain ⟨r₀, hmem, rfl⟩ := mem_image.mp hr
  exact fun hr => h.clearDestination hP c r₀ hmem (hP.setColumn c r₀ hr)

/-- A round of the loop frees its column. -/
theorem without_rekeyColumn (hne : old ≠ new) (rows : Finset Row) (c : Column) :
    Without (Row.Holds · c old) (rekeyColumn old new rows c) := by
  intro r hr hholds
  obtain ⟨r₀, -, rfl⟩ := mem_image.mp hr
  exact (Row.holds_setColumn hne hholds).1 rfl

theorem without_purgeColumn (uin : Uin) (rows : Finset Row) (c : Column) :
    Without (Row.Holds · c uin) (purgeColumn uin rows c) :=
  fun _ hr => (mem_filter.mp hr).2

/-- What each round of a loop keeps out stays out. -/
theorem Without.foldl {step : Finset Row → Column → Finset Row}
    (hkeep : ∀ rows c, Without P rows → Without P (step rows c)) :
    ∀ (columns : List Column) (rows : Finset Row), Without P rows →
      Without P (columns.foldl step rows) := by
  intro columns
  induction columns with
  | nil => exact fun _ h => h
  | cons c rest ih => exact fun rows h => ih _ (hkeep rows c h)

/-- If each round frees its column and no round puts the number back, the loop frees them all. -/
theorem without_foldl {step : Finset Row → Column → Finset Row}
    (hfree : ∀ rows c, Without (Row.Holds · c uin) (step rows c))
    (hkeep : ∀ c rows c', Without (Row.Holds · c uin) rows →
      Without (Row.Holds · c uin) (step rows c')) :
    ∀ (columns : List Column) (rows : Finset Row), c ∈ columns →
      Without (Row.Holds · c uin) (columns.foldl step rows) := by
  intro columns
  induction columns with
  | nil => exact nofun
  | cons c' rest ih =>
    intro rows hc
    rcases List.mem_cons.mp hc with rfl | hrest
    · exact Without.foldl (hkeep c) rest _ (hfree rows c)
    · exact ih _ hrest

/-! ## The two departures -/

/-- A site under the number's name that leaving the number does not delete: the name has zeros
before it, or the site is somebody else's. -/
def Row.stray (uin : Uin) : Row → Bool
  | .site (.digits zeros value) owner _ _ _ => value == uin && !(zeros == 0 && owner == uin)
  | _ => false

theorem Row.dropsSite_of_signed {r : Row} (hsigned : r.signed uin = true)
    (hstray : r.stray uin = false) (new : Option Uin) : r.dropsSite uin new = true := by
  cases r with
  | site name owner key version manifest =>
    cases name with
    | word text => cases hsigned
    | digits zeros value =>
      obtain rfl : value = uin := by simpa [Row.signed] using hsigned
      have hown : zeros = 0 ∧ owner = value := by simpa [Row.stray] using hstray
      simp [Row.dropsSite, hown.1, hown.2]
  | _ => cases hsigned

theorem without_moveSites_owner (new : Option Uin) (hne : ∀ t ∈ new, old ≠ t) (rows : Finset Row) :
    Without (Row.Holds · .siteOwner old) (moveSites old new rows) := by
  intro r hr hholds
  obtain ⟨r₀, hmem, rfl⟩ := mem_image.mp hr
  have hkept : r₀.dropsSite old new = false := by simpa using (mem_filter.mp hmem).2
  cases new with
  | some t => exact (Row.holds_setColumn (hne t rfl) hholds).1 rfl
  | none =>
    cases r₀ with
    | site name owner key version manifest =>
      obtain rfl : old = owner := by simpa [Row.Holds, Row.columns] using hholds
      simp [Row.dropsSite] at hkept
    | _ => simp [Row.Holds, Row.columns] at hholds

theorem without_moveSites_signed (new : Option Uin) (h : ∀ r ∈ rows, r.stray uin = false) :
    Without (fun r => r.signed uin = true) (moveSites uin new rows) := by
  intro r hr hsigned
  obtain ⟨r₀, hmem, rfl⟩ := mem_image.mp hr
  obtain ⟨hrow, hkept⟩ := mem_filter.mp hmem
  have hsame : r₀.signed uin = true := by
    cases new with
    | none => exact hsigned
    | some t => exact (r₀.signed_setColumn).symm.trans hsigned
  have hdrops := Row.dropsSite_of_signed hsame (h r₀ hrow) new
  rw [hdrops] at hkept
  exact absurd hkept (by decide)

/-- Rows that no listed column and no site ties to the number do not name it once its push tokens
and its account are deleted. -/
theorem names_purgeColumn (hlisted : ∀ c ∈ perUinColumns, Without (Row.Holds · c uin) rows)
    (hsite : Without (Row.Holds · .siteOwner uin) rows)
    (hsigned : Without (fun r => r.signed uin = true) rows) :
    ∀ r ∈ purgeColumn uin (purgeColumn uin rows .tokenUin) .userUin, r.names uin = false := by
  intro r hr
  obtain ⟨hr', huser⟩ := mem_filter.mp hr
  obtain ⟨hrow, htoken⟩ := mem_filter.mp hr'
  rw [← Bool.not_eq_true, Row.names_iff]
  rintro (⟨c, hholds⟩ | hname)
  · rcases c.listed with hc | rfl | rfl | rfl
    · exact hlisted c hc r hrow hholds
    · exact huser hholds
    · exact hsite r hrow hholds
    · exact htoken hholds
  · exact hsigned r hrow hname

theorem names_purgeAccount {rows' : Finset Row} (h : purgeAccount uin rows = some rows')
    (hstray : ∀ r ∈ rows, r.stray uin = false) : ∀ r ∈ rows', r.names uin = false := by
  unfold purgeAccount at h
  split at h
  · obtain rfl := Option.some.inj h
    set before := purgeColumn uin (dropOwnedRooms uin rows) .memberUin
    have hbefore : ∀ r ∈ before, r.stray uin = false := fun r hr =>
      hstray r (mem_of_mem_filter r (mem_of_mem_filter r hr))
    have hpurged : ∀ P : Row → Prop, Without P (moveSites uin none before) →
        Without P (purgeUinRows uin before) := fun P hP =>
      Without.foldl (fun _ _ hrows => hrows.filter _) perUinColumns _ hP
    refine names_purgeColumn (fun c hc => ?_) ?_ ?_
    · exact without_foldl (without_purgeColumn uin) (fun _ _ _ hrows => hrows.filter _)
        perUinColumns _ hc
    · exact hpurged _ (without_moveSites_owner none (by simp) before)
    · exact hpurged _ (without_moveSites_signed none hbefore)
  · cases h

theorem names_performMigration {rows' : Finset Row} {target : Uin}
    (h : performMigration uin target rows = some rows')
    (hstray : ∀ r ∈ rows, r.stray uin = false) : ∀ r ∈ rows', r.names uin = false := by
  unfold performMigration at h
  split at h
  · next hfree =>
      obtain rfl := Option.some.inj h
      have hne : uin ≠ target := by
        rintro rfl
        exact hfree.2 hfree.1
      set before := insert (Row.user target) rows
      have hbefore : ∀ r ∈ before, r.stray uin = false := by
        intro r hr
        rcases mem_insert.mp hr with rfl | hrow
        · rfl
        · exact hstray r hrow
      have hmoved : ∀ P, Inherited uin target P → Without P (moveSites uin (some target) before) →
          Without P (rekeyUinRows uin target before) := fun P hP =>
        Without.foldl (fun _ c hrows => hrows.rekeyColumn hP c) perUinColumns _
      refine names_purgeColumn (fun c hc => ?_) ?_ ?_
      · exact without_foldl (without_rekeyColumn hne)
          (fun c _ c' hrows => hrows.rekeyColumn (inherited_holds hne c) c') perUinColumns _ hc
      · exact hmoved _ (inherited_holds hne _)
          (without_moveSites_owner _ (by simpa using hne) before)
      · exact hmoved _ inherited_signed (without_moveSites_signed _ hbefore)
  · cases h

/-- Whichever way the number was left, nothing names it any more. -/
theorem Departure.names_apply {rows' : Finset Row} {d : Departure}
    (h : d.apply uin rows = some rows') (hstray : ∀ r ∈ rows, r.stray uin = false) :
    ∀ r ∈ rows', r.names uin = false := by
  cases d with
  | burn => exact names_purgeAccount h hstray
  | migrate target => exact names_performMigration h hstray

end RcqServer.Reuse
