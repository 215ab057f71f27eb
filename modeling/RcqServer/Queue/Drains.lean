import RcqServer.Queue.Inserts

/-!
# What a drain has in hand

The assertions that a fetch or an ack carries from statement to statement, while other requests
commit in between, and what the commit at the end needs of them.

* `Passed B s u D m`: of the rows owed to install `D`, those up to `m` are settled, or in the
  batch `B` that this request settles when it commits.
* `Drains B u D ws s`: the pending writes move `D`'s cursor only to such a mark, and delete a row
  only if every install that it is owed to has settled it or loses its cursor in the same
  transaction.
-/

namespace RcqServer.Queue

open ReadCommitted Messages

variable {ax : Axis} {lane : Lane} {s s' : State} {u : Uin} {D : DeviceId} {B : ℕ → Prop}
  {ws : List Write}

/-- Up to `m`, nothing owed to the install is outstanding but the batch `B`. -/
structure Passed (ax : Axis) (lane : Lane) (B : ℕ → Prop) (s : State) (u : Uin) (D : DeviceId)
    (m : ℕ) : Prop where
  bounded : Bounded ax s u m
  settled : ∀ id, Owed ax lane s u D id → id ≤ m → Settled ax s.ext u D id ∨ B id

namespace Passed

variable {m m' : ℕ}

/-- What becomes visible later lies above `m`, so the statement stays true. -/
theorem mono (h : Passed ax lane B s u D m) (hgrows : Grows ax lane s s')
    (hinv : Inv ax lane s') : Passed ax lane B s' u D m := by
  refine ⟨h.bounded.mono (hgrows.ever u), fun id howed hle => ?_⟩
  rcases hgrows.owed u D id howed with hold | hnew
  · exact (h.settled id hold hle).imp_left (hgrows.settled u D id)
  · have := h.bounded.lt_of_fresh hgrows hinv howed.ever hnew
    omega

theorem weaken (h : Passed ax lane (fun _ => False) s u D m) : Passed ax lane B s u D m :=
  ⟨h.bounded, fun id howed hle => .inl ((h.settled id howed hle).resolve_right not_false)⟩

theorem zero (hinv : Inv ax lane s) : Passed ax lane B s u D 0 := by
  refine ⟨.inl rfl, fun id howed hle => ?_⟩
  have := (hinv.fresh u id howed.ever).1
  omega

theorem max (h : Passed ax lane B s u D m) (h' : Passed ax lane B s u D m') :
    Passed ax lane B s u D (Max.max m m') := by
  rcases Nat.le_total m m' with hle | hle
  · rwa [Nat.max_eq_right hle]
  · rwa [Nat.max_eq_left hle]

/-- An install's own mark. -/
theorem of_cursor {c : QueueCursor} (hinv : Inv ax lane s)
    (hc : s.db.queueCursors.get (u, D) = some c) : Passed ax lane B s u D (c.mark ax) :=
  ⟨hinv.marks u D c hc, fun id howed hle => .inl (hinv.passed u D c id hc howed hle)⟩

/-- Nothing is owed to an install without a cursor. -/
theorem of_noCursor (hm : Bounded ax s u m) (hnone : ¬HasCursor s.db u D) :
    Passed ax lane B s u D m :=
  ⟨hm, fun _ howed _ => absurd howed.hasCursor hnone⟩

end Passed

/-! ## Pending writes of a drain -/

/-- The pending writes leave the install without a cursor, whatever there was before. -/
def Dropped (ws : List Write) (u : Uin) (D : DeviceId) : Prop :=
  ∀ db : Db, (applyAll ws db).queueCursors.get (u, D) = none

/-- Install `D'` has settled the row, or does when this request commits, or loses its cursor
then. -/
def Cleared (ax : Axis) (B : ℕ → Prop) (u : Uin) (D : DeviceId) (ws : List Write) (s : State)
    (D' : DeviceId) (id : ℕ) : Prop :=
  Settled ax s.ext u D' id ∨ (D' = D ∧ B id) ∨ Dropped ws u D'

structure Drains (ax : Axis) (lane : Lane) (B : ℕ → Prop) (u : Uin) (D : DeviceId)
    (ws : List Write) (s : State) : Prop where
  cursors : ∀ u' D' c, Write.cursor u' D' (some c) ∈ ws →
    u' = u ∧ D' = D ∧ Passed ax lane B s u D (c.mark ax)
  rows : ∀ id row, Write.queued ax id row ∈ ws → row = none ∧ Ever ax s u id ∧
    ∀ D', Owed ax lane s u D' id → Cleared ax B u D ws s D' id

theorem Cleared.mono {D' : DeviceId} {id : ℕ} (h : Cleared ax B u D ws s D' id)
    (hgrows : Grows ax lane s s') : Cleared ax B u D ws s' D' id :=
  h.imp_left (hgrows.settled u D' id)

theorem Drains.mono (h : Drains ax lane B u D ws s) (hgrows : Grows ax lane s s')
    (hinv : Inv ax lane s') : Drains ax lane B u D ws s' := by
  refine ⟨fun u' D' c hc => ?_, fun id row hrow => ?_⟩
  · obtain ⟨hu, hD, hpassed⟩ := h.cursors u' D' c hc
    exact ⟨hu, hD, hpassed.mono hgrows hinv⟩
  · obtain ⟨hnone, hever, hcleared⟩ := h.rows id row hrow
    refine ⟨hnone, hgrows.ever u id hever, fun D' howed => ?_⟩
    have hold := (hgrows.owed u D' id howed).resolve_right fun hnew => hnew hever
    exact (hcleared D' hold).mono hgrows

/-! ## The commit of a drain -/

section Commit

variable {e : Ext} {id : ℕ}

/-- A drain makes no row visible. -/
theorem Drains.holds_view (h : Drains ax lane B u D ws s) {u' : Uin}
    (hholds : Holds ax (s.view ws) u' id) : Holds ax s.db u' id ∧
      ((s.view ws).queue ax).get id = (s.db.queue ax).get id := by
  obtain ⟨row, hget, huin⟩ := hholds
  rcases queue_get_applyAll ws s.db id with hsame | hwrite
  · exact ⟨⟨row, hsame.symm.trans hget, huin⟩, hsame⟩
  · have hnone := (h.rows id _ hwrite).1
    rw [Shared.view] at hget
    rw [hget] at hnone
    cases hnone

private theorem Drains.ever_commit_iff (h : Drains ax lane B u D ws s) {u' : Uin} :
    Ever ax (s.commit ws e) u' id ↔ Ever ax s u' id := by
  rw [ever_commit]
  constructor
  · rintro (hview | hever)
    · exact ⟨s.db, List.mem_cons_self, (h.holds_view hview).1⟩
    · exact hever
  · exact .inr

private theorem Drains.owed_of_commit (h : Drains ax lane B u D ws s) {u' : Uin} {D' : DeviceId}
    (howed : Owed ax lane (s.commit ws e) u' D' id) :
    HasCursor (s.view ws) u' D' ∧ Owed ax lane s u' D' id := by
  obtain ⟨hcursor, ⟨⟨row, hget, huin, -⟩, hgone, -⟩ | hold⟩ := owed_commit.mp howed
  · exact absurd (h.holds_view ⟨row, hget, huin⟩).1 hgone
  · exact ⟨hcursor, hold⟩

/-- Committing a drain keeps the invariant, if the commit settles the batch. -/
theorem Drains.step_commit (h : Drains ax lane B u D ws s) (hinv : Inv ax lane s)
    (hnext : e.nextId ax = s.ext.nextId ax) (hhanded : ∀ event ∈ s.ext.handed, event ∈ e.handed)
    (hsettled : ∀ u D id, Settled ax s.ext u D id → Settled ax e u D id)
    (hbatch : ∀ id, B id → Settled ax e u D id) (hhonest : ∀ event ∈ e.acked, event ∈ e.handed)
    (hdrained : ∀ event ∈ e.drained, event ∈ e.handed) (r : Request) {l : Label} :
    (outline ax lane).Step r l ws s (s.commit ws e) := by
  have hever : ∀ u' id, Ever ax (s.commit ws e) u' id ↔ Ever ax s u' id :=
    fun u' id => h.ever_commit_iff
  refine ⟨?_, ⟨⟨?_, ?_, ?_, hsettled, hhanded, hnext.ge⟩, ?_, ?_⟩⟩
  · constructor
    case start =>
      rw [Shared.commit_ext, hnext]
      exact hinv.start
    case fresh =>
      intro u' id hid
      rw [Shared.commit_ext, hnext]
      exact hinv.fresh u' id ((hever u' id).mp hid)
    case owner =>
      intro u₁ u₂ id h₁ h₂
      exact hinv.owner u₁ u₂ id ((hever u₁ id).mp h₁) ((hever u₂ id).mp h₂)
    case honest => exact hhonest
    case drained => exact hdrained
    case marks =>
      intro u' D' c hc
      have hmono := fun id hid => (hever u' id).mpr hid
      rcases cursor_get_applyAll ws s.db u' D' with hsame | hwrite
      · exact (hinv.marks u' D' c (hsame.symm.trans hc)).mono hmono
      · rw [show (applyAll ws s.db).queueCursors.get (u', D') = some c from hc] at hwrite
        obtain ⟨rfl, rfl, hpassed⟩ := h.cursors u' D' c hwrite
        exact hpassed.bounded.mono hmono
    case passed =>
      intro u' D' c id hc howed hle
      obtain ⟨-, hold⟩ := h.owed_of_commit howed
      rcases cursor_get_applyAll ws s.db u' D' with hsame | hwrite
      · exact hsettled u' D' id (hinv.passed u' D' c id (hsame.symm.trans hc) hold hle)
      · rw [show (applyAll ws s.db).queueCursors.get (u', D') = some c from hc] at hwrite
        obtain ⟨rfl, rfl, hpassed⟩ := h.cursors u' D' c hwrite
        rcases hpassed.settled id hold hle with hdone | hin
        · exact hsettled u' D' id hdone
        · exact hbatch id hin
    case kept =>
      intro u' D' id howed hgone
      obtain ⟨⟨c, hc⟩, hold⟩ := h.owed_of_commit howed
      by_cases hdb : Holds ax s.db u' id
      · -- the row goes with this commit
        have hwrite : ∃ row, Write.queued ax id row ∈ ws := by
          rcases queue_get_applyAll ws s.db id with hsame | hwrite
          · obtain ⟨row, hget, huin⟩ := hdb
            exact absurd ⟨row, hsame.trans hget, huin⟩ hgone
          · exact ⟨_, hwrite⟩
        obtain ⟨row, hrow⟩ := hwrite
        obtain ⟨-, hmine, hcleared⟩ := h.rows id row hrow
        obtain rfl := hinv.owner u' u id hold.ever hmine
        rcases hcleared D' hold with hdone | ⟨rfl, hin⟩ | hdropped
        · exact hsettled u' D' id hdone
        · exact hbatch id hin
        · exact absurd ((hdropped s.db).symm.trans hc) (by simp)
      · exact hsettled u' D' id (hinv.kept u' D' id hold hdb)
    case tracks =>
      intro u' D' id howed hholds
      obtain ⟨-, hold⟩ := h.owed_of_commit howed
      obtain ⟨hdb, hsame⟩ := h.holds_view hholds
      obtain ⟨row, hget, huin, hlane⟩ := hinv.tracks u' D' id hold hdb
      exact ⟨row, hsame.trans hget, huin, hlane⟩
  · exact fun u' id hid => (hever u' id).mpr hid
  · exact fun u' id hid hnew => absurd ((hever u' id).mp hid) hnew
  · exact fun u' D' id howed => .inl (h.owed_of_commit howed).2
  · intro hhist
    simp at hhist
  · exact fun u' id hid hnew => absurd ((hever u' id).mp hid) hnew

end Commit

end RcqServer.Queue
