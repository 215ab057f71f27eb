import RcqServer.Numbers.Digits
import RcqServer.ReadCommitted.Table

/-!
# Sites and the numbers that they are named after

A site whose name is made of digits speaks for a number, so it is for the account with that number.
`put_site` reads the name as an integer.  `_move_sites`, which deletes such a site when its owner moves
to another number, compares it with the text of the number.  Account 7 may publish `007`, and takes the
site along when it moves.
-/

namespace RcqServer.Sites

open ReadCommitted Numbers Table

structure Site where
  owner : Uin
  ownerKey : String
  version : ℕ
  frozen : Bool

/-- The table `sites`. -/
abbrev Rows := Table (List Char) Site

/-! ## The endpoints -/

/-- `_NAME_RE`, and none of `_ROUTE_NAMES`. -/
def wellNamed (name : List Char) : Bool :=
  3 ≤ name.length && name.length ≤ 32 && name.all (fun c => c.isLower || c.isDigit || c == '-') &&
    name.head? != some '-' && name ∉ ["mine".toList, "available".toList]

/-- `_AUTHORITY_NAMES`. -/
def authorityNames : List (List Char) :=
  ["support", "admin", "administrator", "security", "help", "helpdesk", "abuse", "moderator",
    "moderation", "official", "root", "system", "rcq", "rcq-team", "rcq-support", "rcqteam",
    "rcqsupport", "team"].map String.toList

/-- `int`, of a text of digits. -/
def value (name : List Char) : ℕ := name.foldl (fun n c => 10 * n + (c.toNat - 48)) 0

/-- The name is made of digits only. -/
abbrev Numeric (name : List Char) : Prop := name.all Char.isDigit

def maxSitesPerUin : ℕ := 1

structure SiteIn where
  /-- The name, stripped and in lower case. -/
  lower : List Char
  ownerKey : String
  /-- The manifest, if it is an object: its version, if that is a number. -/
  manifest : Option (Option ℕ)
  /-- What is wrong with the files, if anything is. -/
  files : Option HttpError

/-- What `put_site` refuses, in its order. -/
def checks (sites : Rows) (me : Uin) (body : SiteIn) : List (Bool × HttpError) :=
  let existing := sites.get body.lower
  [(!wellNamed body.lower, ⟨400, "invalid_name"⟩),
    (authorityNames.contains body.lower && existing.all (·.owner != me), ⟨403, "reserved_name"⟩),
    (body.lower.all Char.isDigit && value body.lower != me, ⟨403, "reserved_for_uin"⟩),
    (body.manifest.isNone, ⟨400, "bad_manifest"⟩),
    (body.manifest != some (some (existing.elim 1 (·.version + 1))), ⟨409, "bad_version"⟩),
    (existing.any (·.owner != me), ⟨409, "taken"⟩),
    (existing.any (·.frozen), ⟨410, "frozen"⟩),
    (existing.isNone && maxSitesPerUin ≤ (sites.select fun _ site => site.owner == me).length,
      ⟨409, "too_many_sites"⟩),
    (existing.any (·.ownerKey != body.ownerKey), ⟨409, "key_changed"⟩)] ++
      (body.files.map (true, ·)).toList

/-- `PUT /sites/{name}`. -/
def putSite (sites : Rows) (me : Uin) (body : SiteIn) : Except HttpError Rows :=
  match (checks sites me body).find? (·.1) with
  | some refused => .error refused.2
  | none => .ok (sites.set body.lower (some (match sites.get body.lower with
      | none => ⟨me, body.ownerKey, 1, false⟩
      | some site => { site with version := site.version + 1 })))

/-- `DELETE /sites/{name}`. -/
def deleteSite (sites : Rows) (me : Uin) (lower : List Char) : Except HttpError Rows :=
  match sites.get lower with
  | none => .error ⟨404, "no_site"⟩
  | some site => if site.owner ≠ me then .error ⟨403, "not_owner"⟩ else .ok (sites.set lower none)

/-- `_move_sites`; there is no new number if the account is burned. -/
def moveSites (sites : Rows) (old : Uin) (new : Option Uin) : Rows :=
  sites.setMany (sites.changes fun name site =>
    if site.owner = old then
      some (if name = digits old then none else new.map fun uin => { site with owner := uin })
    else none)

/-- A request that writes `sites`.  A migration, the activation of a number and a purchase that
switches to it move an account; the sale of a number that nobody answers as writes no site. -/
inductive Request
  | put (me : Uin) (body : SiteIn)
  | delete (me : Uin) (lower : List Char)
  | move (old new : Uin)
  | burn (uin : Uin)

def serve (sites : Rows) : Request → Rows
  | .put me body => (putSite sites me body).toOption.getD sites
  | .delete me lower => (deleteSite sites me lower).toOption.getD sites
  | .move old new => moveSites sites old (some new)
  | .burn uin => moveSites sites uin none

/-- The tables that a run leads to whose requests meet a condition. -/
inductive Reachable (ok : Rows → Request → Prop) : Rows → Prop
  | empty : Reachable ok ∅
  | serve {sites : Rows} {r : Request} :
      Reachable ok sites → ok sites r → Reachable ok (serve sites r)

/-! ## Sites of numbers -/

/-- A site that is named after a number belongs to the account with that number. -/
def Proper (sites : Rows) : Prop := ∀ x ∈ sites.rows, Numeric x.1 → x.2.owner = value x.1

instance (sites : Rows) : Decidable (Proper sites) :=
  inferInstanceAs (Decidable (∀ x ∈ _, _))

/-- An account has no site with a name of digits but its number's own text. -/
def Spelled (sites : Rows) (uin : Uin) : Prop :=
  ∀ x ∈ sites.rows, x.2.owner = uin → Numeric x.1 → x.1 = digits uin

/-- Only such accounts move. -/
def MovesSpelled (sites : Rows) : Request → Prop
  | .move old _ => Spelled sites old
  | _ => True

variable {sites : Rows} {me : Uin} {name : List Char} {site : Site}

theorem Proper.owner (h : Proper sites) (hget : sites.get name = some site) (hname : Numeric name) :
    site.owner = value name := h (name, site) (mem_rows.mpr hget) hname

theorem Proper.put {body : SiteIn} (h : Proper sites) :
    Proper ((putSite sites me body).toOption.getD sites) := by
  unfold putSite
  split
  · exact h
  · rename_i hnone
    -- an account that gets through has passed the check of the digits
    have hme : Numeric body.lower → value body.lower = me := by
      have hcheck := List.find?_eq_none.mp hnone
        (body.lower.all Char.isDigit && value body.lower != me, ⟨403, "reserved_for_uin"⟩)
        (by simp [checks])
      simpa using hcheck
    rintro ⟨name, site⟩ hrow hname
    rcases get_set_some (mem_rows.mp hrow) with ⟨rfl, rfl⟩ | ⟨-, hget⟩
    · dsimp only
      split
      · exact (hme hname).symm
      · rename_i hold
        have howner := h.owner hold hname
        exact howner
    · exact h.owner hget hname

theorem Proper.delete (h : Proper sites) :
    Proper ((deleteSite sites me name).toOption.getD sites) := by
  unfold deleteSite
  split
  · exact h
  · split
    · exact h
    · rintro ⟨other, site⟩ hrow hname
      have hget := mem_rows.mp hrow
      simp only [Except.toOption, Option.getD_some, get_set] at hget
      split at hget
      · cases hget
      · exact h.owner hget hname

theorem Proper.move {old : Uin} {new : Option Uin} (h : Proper sites)
    (hspelled : new.isSome → Spelled sites old) : Proper (moveSites sites old new) := by
  rintro ⟨name, site⟩ hrow hname
  have hget := mem_rows.mp hrow
  rw [moveSites, get_setMany_changes] at hget
  obtain ⟨before, hbefore, hget⟩ := Option.bind_eq_some_iff.mp hget
  split at hget
  · rename_i howner
    split at hget
    · cases hget
    · rename_i hother
      obtain ⟨uin, rfl, -⟩ := Option.map_eq_some_iff.mp hget
      exact absurd (hspelled rfl _ (mem_rows.mpr hbefore) howner hname) hother
  · cases hget
    exact h.owner hbefore hname

/-- The publication of a first version. -/
def firstPut (me : Uin) (name : String) : Request := .put me ⟨name.toList, "key", some (some 1), none⟩

end RcqServer.Sites
