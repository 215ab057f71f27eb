import RcqServer.Gate.Tokens

/-!
# Whose token it is

A token is drawn for one device, or for the operator, and the row that has it belongs to its owner.
This holds in every state whatever the requests do, also of the rows that a session has written and
not committed.
-/

namespace RcqServer.Gate

open ReadCommitted List Option Function

variable {s s' : State} {e e' : Ext} {ws : List Write}

/-- Tokens that were not drawn yet are nobody's. -/
def Fresh (e : Ext) : Prop := ∀ token, e.nextToken ≤ token → e.owners token = none

/-- The rows of a database have the tokens of their owners. -/
structure Owned (e : Ext) (db : Db) : Prop where
  device : ∀ dev row, db.devices.get dev = some row →
    ∃ invite, e.owners row.tokenHash = some (.device dev invite)
  issued : ∀ id row, db.issued.get id = some row → e.owners row.tokenHash = some .operator

/-- A write of a row with a token of its owner. -/
def Write.Owned (e : Ext) : Write → Prop
  | .device dev row => ∃ r, row = some r ∧ ∃ invite, e.owners r.tokenHash = some (.device dev invite)
  | .issued _ row => ∃ r, row = some r ∧ e.owners r.tokenHash = some .operator

/-- Owners stay. -/
def Keeps (e e' : Ext) : Prop := ∀ token o, e.owners token = some o → e'.owners token = some o

theorem Keeps.of_eq (h : e'.owners = e.owners) : Keeps e e' := fun _ _ ho => h ▸ ho

theorem Keeps.trans {e'' : Ext} (h : Keeps e e') (h' : Keeps e' e'') : Keeps e e'' :=
  fun token o ho => h' token o (h token o ho)

theorem Keeps.isSome {token : ℕ} (h : Keeps e e') (hs : (e.owners token).isSome) :
    (e'.owners token).isSome := by
  obtain ⟨o, ho⟩ := Option.isSome_iff_exists.mp hs
  exact Option.isSome_iff_exists.mpr ⟨o, h token o ho⟩

theorem Fresh.draw (h : Fresh e) (owner : Owner) : Fresh (e.draw owner) := by
  intro token htoken
  have htoken : e.nextToken + 1 ≤ token := htoken
  have hne : token ≠ e.nextToken := by omega
  exact (update_of_ne hne _ _).trans (h token (by omega))

theorem Fresh.keeps_draw (h : Fresh e) (owner : Owner) : Keeps e (e.draw owner) := by
  intro token o ho
  have hne : token ≠ e.nextToken := by
    rintro rfl
    rw [h _ le_rfl] at ho
    cases ho
  exact (update_of_ne hne _ _).trans ho

theorem owners_draw (e : Ext) (owner : Owner) : (e.draw owner).owners e.nextToken = some owner :=
  update_self _ _ _

theorem Owned.keeps {db : Db} (h : Owned e db) (hkeeps : Keeps e e') : Owned e' db where
  device dev row hrow := by
    obtain ⟨invite, ho⟩ := h.device dev row hrow
    exact ⟨invite, hkeeps _ _ ho⟩
  issued id row hrow := hkeeps _ _ (h.issued id row hrow)

theorem Write.Owned.keeps {w : Write} (h : w.Owned e) (hkeeps : Keeps e e') : w.Owned e' := by
  cases w with
  | device dev row =>
    obtain ⟨r, hr, invite, ho⟩ := h
    exact ⟨r, hr, invite, hkeeps _ _ ho⟩
  | issued id row =>
    obtain ⟨r, hr, ho⟩ := h
    exact ⟨r, hr, hkeeps _ _ ho⟩

/-- What a transaction sees, and what it leaves when it commits. -/
theorem Owned.applyAll {db : Db} (h : Owned e db) (hws : ∀ w ∈ ws, w.Owned e) :
    Owned e (applyAll ws db) where
  device dev row hrow := by
    rcases sets_devices.get_applyAll ws db dev with hsame | hmem
    · exact h.device dev row (hsame ▸ hrow)
    · obtain ⟨r, hr, ho⟩ := hws _ hmem
      obtain rfl : row = r := some.inj (hrow.symm.trans hr)
      exact ho
  issued id row hrow := by
    rcases sets_issued.get_applyAll ws db id with hsame | hmem
    · exact h.issued id row (hsame ▸ hrow)
    · obtain ⟨r, hr, ho⟩ := hws _ hmem
      obtain rfl : row = r := some.inj (hrow.symm.trans hr)
      exact ho

/-- The row with a token is a row of the token's owner. -/
theorem Owned.byHash {db : Db} {token : ℕ} {found : Found} (h : Owned e db)
    (hfound : db.byHash token = some found) :
    (∃ id row, found = .issued id row ∧ db.issued.get id = some row ∧
      e.owners token = some .operator) ∨
    ∃ dev row invite, found = .device dev row ∧ db.devices.get dev = some row ∧
      e.owners token = some (.device dev invite) := by
  unfold Db.byHash at hfound
  split at hfound
  · rename_i id row hhead
    obtain rfl := some.inj hfound
    obtain ⟨hrow, hhash⟩ := Table.mem_select.mp (mem_of_head? hhead)
    obtain rfl : row.tokenHash = token := beq_iff_eq.mp hhash
    exact .inl ⟨id, row, rfl, hrow, h.issued id row hrow⟩
  · obtain ⟨⟨dev, row⟩, hhead, rfl⟩ := map_eq_some_iff.mp hfound
    obtain ⟨hrow, hhash⟩ := Table.mem_select.mp (mem_of_head? hhead)
    obtain rfl : row.tokenHash = token := beq_iff_eq.mp hhash
    obtain ⟨invite, ho⟩ := h.device dev row hrow
    exact .inr ⟨dev, row, invite, rfl, hrow, ho⟩

/-! ## The writes of the requests -/

section Writes

variable {db : Db}

theorem upserted_owned {dev : Dev} {invite token : ℕ}
    (ho : e.owners token = some (.device dev invite)) :
    (Write.device dev (some (db.upserted dev invite token))).Owned e := by
  refine ⟨_, rfl, invite, ?_⟩
  unfold Db.upserted
  split
  · exact ho
  · exact ho

theorem consumes_owned (h : Owned e db) (invite token : ℕ) (now : Time) :
    ∀ w ∈ db.consumes invite token now, w.Owned e := by
  intro w hw
  unfold Db.consumes at hw
  split at hw
  · rename_i row hrow
    split at hw
    · obtain rfl := mem_singleton.mp hw
      exact ⟨_, rfl, h.issued invite row hrow⟩
    · exact absurd hw not_mem_nil
  · exact absurd hw not_mem_nil

/-- A row that is revoked keeps its token. -/
theorem revokes_owned (h : Owned e db) (target : RowId) : ∀ w ∈ db.revokes target, w.Owned e := by
  intro w hw
  cases target with
  | issued id =>
    simp only [Db.revokes] at hw
    split at hw
    · rename_i row hrow
      obtain rfl := mem_singleton.mp hw
      exact ⟨_, rfl, h.issued id row hrow⟩
    · exact absurd hw not_mem_nil
  | device dev =>
    simp only [Db.revokes] at hw
    split at hw
    · rename_i row hrow
      obtain rfl := mem_singleton.mp hw
      exact ⟨_, rfl, h.device dev row hrow⟩
    · exact absurd hw not_mem_nil

theorem revokesChildren_owned (h : Owned e db) (invite : ℕ) :
    ∀ w ∈ db.revokesChildren invite, w.Owned e := by
  intro w hw
  obtain ⟨⟨dev, row⟩, hmem, rfl⟩ := mem_map.mp hw
  exact ⟨_, rfl, h.device dev row (Table.mem_select.mp hmem).1⟩

end Writes

/-- A redeem only reads until it mints. -/
theorem gateRedeem_safe {O : Outline Db Ext Write Label Request} (hO : O.Coherent) {r : Request}
    (hmint : ∀ {s} dev invite presented down, O.Safe r (mint dev invite presented down) [] s)
    (dev : Dev) (auth : Option Credential) (down : Bool) :
    O.Safe r (gateRedeem dev auth down) [] s := by
  unfold gateRedeem
  split
  · exact trivial
  split
  · exact trivial
  split
  · exact trivial
  refine Outline.wp_read_bind hO fun s' _ _ _ => ?_
  dsimp only
  split
  · exact trivial
  · exact trivial
  split
  · exact trivial
  split
  · exact trivial
  · exact hmint _ _ _ _

end RcqServer.Gate
