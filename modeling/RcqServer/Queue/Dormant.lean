import RcqServer.Messages.Posts

/-!
# The dormant sweep

`_DORMANT_SQL` of `services/offline_queue_sweep.py`, beside the rule that has stored the rows.  A
post keeps a copy for a member who has been away too long if the member is woken, or if the row is
key material.  The query spares key material; it does not ask who is woken.
-/

namespace RcqServer.Queue

open ReadCommitted Messages List Table

variable {db : Db} {cutoff : Time} {id : ℕ} {row : QueuedRow}

/-- The rows that the inner query finds: of an account that is gone or has not been seen since the
cutoff, and not key material.  A comparison with `NULL` does not hold. -/
def reapable (db : Db) (cutoff : Time) (row : QueuedRow) : Bool :=
  ((db.users.get row.toUin).all fun user => user.lastSeen.any (· < cutoff)) &&
    row.cls != some 2 && row.envelopeType != .skdm

def dormantRows (db : Db) (cutoff : Time) : List ℕ :=
  (db.offlineGroupMessages.select fun _ row => reapable db cutoff row).map Prod.fst

/-- `_DORMANT_BATCH`. -/
def dormantBatch : ℕ := 20000

/-- `_DORMANT_SQL`, which deletes the first rows that it comes across; `found` lists them in the
order of the plan. -/
def dormantSql (found : List ℕ) (db : Db) : Db :=
  { db with offlineGroupMessages :=
      db.offlineGroupMessages.setMany ((found.take dormantBatch).map fun id => (id, none)) }

/-- Whatever the order, the query leaves the row. -/
def Spared (db : Db) (cutoff : Time) (id : ℕ) (row : QueuedRow) : Prop :=
  ∀ found : List ℕ, found.Perm (dormantRows db cutoff) →
    (dormantSql found db).offlineGroupMessages.get id = some row

theorem mem_dormantRows (hrow : db.offlineGroupMessages.get id = some row) :
    id ∈ dormantRows db cutoff ↔ reapable db cutoff row = true := by
  constructor
  · intro hmem
    obtain ⟨⟨id', row'⟩, hsel, rfl⟩ := mem_map.mp hmem
    obtain ⟨hget, hreap⟩ := mem_select.mp hsel
    rw [hrow] at hget
    cases hget
    exact hreap
  · intro hreap
    exact mem_map.mpr ⟨(id, row), mem_select.mpr ⟨hrow, hreap⟩, rfl⟩

theorem spared_iff (hrow : db.offlineGroupMessages.get id = some row) :
    Spared db cutoff id row ↔ reapable db cutoff row = false := by
  have hkeys : ∀ ids : List ℕ,
      (ids.map fun id => (id, (none : Option QueuedRow))).map Prod.fst = ids := by
    intro ids
    rw [map_map]
    exact map_id ids
  constructor
  · -- a row that the query may delete is deleted when it comes first
    intro h
    by_contra hreap
    rw [Bool.not_eq_false] at hreap
    have hperm := perm_cons_erase ((mem_dormantRows hrow).mpr hreap)
    have hnodup : (id :: (dormantRows db cutoff).erase id).Nodup :=
      hperm.nodup_iff.mp (select_keys_nodup _ _)
    have hgone : (dormantSql (id :: (dormantRows db cutoff).erase id) db).offlineGroupMessages.get
        id = none := by
      refine get_setMany_of_mem _ ?_ (mem_map.mpr ⟨id, ?_, rfl⟩)
      · rw [hkeys]
        exact hnodup.sublist (take_sublist _ _)
      · exact mem_cons_self
    rw [h _ hperm.symm] at hgone
    cases hgone
  · intro hreap found hperm
    refine (get_setMany_of_notMem _ ?_).trans hrow
    rw [hkeys]
    intro hmem
    have hin := hperm.mem_iff.mp (mem_of_mem_take hmem)
    rw [mem_dormantRows hrow, hreap] at hin
    cases hin

/-- What the query asks about a row of class `cls`. -/
theorem reapable_eq_false_iff {cls : ℕ} (hcls : row.cls = some cls) :
    reapable db cutoff row = false ↔ cls = 2 ∨ row.envelopeType = .skdm ∨
      ∃ user ∈ db.users.get row.toUin, ∀ t ∈ user.lastSeen, cutoff ≤ t := by
  have hseen : ∀ user : UserRow, user.lastSeen.any (· < cutoff) = false ↔
      ∀ t ∈ user.lastSeen, cutoff ≤ t := by
    intro user
    cases user.lastSeen <;> simp
  cases hget : db.users.get row.toUin with
  | none =>
    simp only [reapable, hget, hcls, Option.all_none, Bool.true_and, Bool.and_eq_false_iff]
    simp
  | some user =>
    simp only [reapable, hget, hcls, Option.all_some, Bool.and_eq_false_iff, hseen]
    simp only [bne_eq_false_iff_eq, Option.some.injEq, Option.mem_some_iff, exists_eq_left']
    tauto

/-- A room post that account 7, last seen at 0, is woken for, in a queue that holds nothing else. -/
def wokenRow : QueuedRow := ⟨7, .message, some 1, "", days 20, none, none, some 1⟩

def wokenDb (kind : EnvelopeType) (cls : ℕ) : Db :=
  { Db.empty ((∅ : Table _ _).set 7 (some ⟨some 0, false⟩)) ∅ ∅ with
    offlineGroupMessages := (∅ : Table _ _).set 1
      (some { wokenRow with envelopeType := kind, cls := some cls }) }

end RcqServer.Queue
