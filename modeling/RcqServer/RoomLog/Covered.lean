import RcqServer.Messages.Server
import RcqServer.ReadCommitted.Frame

/-!
# What lies below a cursor in a room's log

A log cursor passes a row only after the install was handed it, or because the install was
started in the room at a head beyond it.  `Covered` says so of one position.

The difficulty is the live frame: a broadcast hands its sequence out **before** it commits.  The
install may ack that sequence at once, so cursors run ahead of the committed log.  What saves them
is that the poster holds the room's `group_seq` row until it ends: if it commits, the row that
appears at the sequence is the one that was handed out (`Grows.fresh`).  If it ends without a
commit, the sequence is given out again, for another row; the outline therefore asks (`Cond`) that
a post which takes sequences finds nothing handed out beyond the room's head.
-/

namespace RcqServer.RoomLog

open ReadCommitted Messages Option List

/-- The heads at which installs were started in rooms. -/
abbrev Seeds := List (GroupId × Uin × DeviceId × ℤ)

/-- The install was handed the post `seq` of a room, with this payload. -/
def Handed (e : Ext) (g : GroupId) (u : Uin) (D : DeviceId) (seq : ℤ) (payload : String) : Prop :=
  ⟨u, D, g, seq, payload⟩ ∈ e.logHanded

/-- The install was started in the room at or beyond `seq`. -/
def Skipped (seeds : Seeds) (g : GroupId) (u : Uin) (D : DeviceId) (seq : ℤ) : Prop :=
  ∃ head, (g, u, D, head) ∈ seeds ∧ seq ≤ head

/-- The account is served the row. -/
def Visible (row : LogRow) (u : Uin) : Prop := row.toUin.all (· == u)

/-- Up to `v`, every row that the account is served was handed to the install or lies before its
start; `seeds` are starts that are not committed yet. -/
structure Covered (seeds : Seeds) (s : State) (g : GroupId) (u : Uin) (D : DeviceId) (v : ℤ) :
    Prop where
  bounded : v ≤ s.db.head g ∨ ∃ payload, Handed s.ext g u D v payload
  rows : ∀ seq row, s.db.groupLog.get (g, seq) = some row → Visible row u → seq ≤ v →
    Handed s.ext g u D seq row.payload ∨ Skipped (seeds ++ s.ext.seeded) g u D seq

/-! ## The outline -/

structure Inv (s : State) : Prop where
  head : ∀ g, 0 ≤ s.db.head g
  rows : ∀ g seq row, s.db.groupLog.get (g, seq) = some row → 0 < seq ∧ seq ≤ s.db.head g
  cursors : ∀ g u D c, s.db.groupLogCursors.get (g, u, D) = some c → Covered [] s g u D c.lastSeq
  /-- What was handed out and is committed by now is the committed row. -/
  handed : ∀ event ∈ s.ext.logHanded, event.seq ≤ s.db.head event.gid →
    ∃ row, s.db.groupLog.get (event.gid, event.seq) = some row ∧ row.payload = event.payload

/-- What any step does to the logs and to the history of answers. -/
structure Grows (s s' : State) : Prop where
  head : ∀ g, s.db.head g ≤ s'.db.head g
  kept : ∀ g seq row, s.db.groupLog.get (g, seq) = some row →
    s'.db.groupLog.get (g, seq) = some row
  /-- A row appears beyond the head, and at or below a sequence that an install was handed it is
  the row that the install was handed. -/
  fresh : ∀ g seq row, s'.db.groupLog.get (g, seq) = some row →
    s.db.groupLog.get (g, seq) = some row ∨ (s.db.head g < seq ∧
      ∀ u D v payload, Handed s.ext g u D v payload → seq ≤ v →
        Handed s'.ext g u D seq row.payload)
  handed : ∀ event ∈ s.ext.logHanded, event ∈ s'.ext.logHanded
  seeded : ∀ seed ∈ s.ext.seeded, seed ∈ s'.ext.seeded

/-- Nothing happens in a room, except that committed rows are handed out. -/
structure Still (g : GroupId) (s s' : State) : Prop where
  head : s'.db.head g = s.db.head g
  rows : ∀ seq, s'.db.groupLog.get (g, seq) = s.db.groupLog.get (g, seq)
  handed : ∀ event ∈ s'.ext.logHanded, event.gid = g → s'.db.head g < event.seq →
    event ∈ s.ext.logHanded

structure Rely (ws : List Write) (s s' : State) : Prop extends Grows s s' where
  locked : ∀ g, RowKey.groupSeq g ∈ lockedRows Db ws → Still g s s'

structure Guar (ws : List Write) (s s' : State) : Prop extends Grows s s' where
  unlocked : ∀ g, RowKey.groupSeq g ∉ lockedRows Db ws → Still g s s'

/-- The position of an install in a room, 0 if it has none. -/
def position (db : Db) (g : GroupId) (u : Uin) (D : DeviceId) : ℤ :=
  ((db.groupLogCursors.get (g, u, D)).map LogCursor.lastSeq).getD 0

/-- An install may ack `v`: it was handed `v` itself, and every row that the account is served
below `v` and above the install's cursor. -/
structure MayAck (s : State) (g : GroupId) (u : Uin) (D : DeviceId) (v : ℤ) : Prop where
  self : ∃ payload, Handed s.ext g u D v payload
  below : ∀ seq row, s.db.groupLog.get (g, seq) = some row → Visible row u →
    position s.db g u D < seq → seq < v → Handed s.ext g u D seq row.payload

def Start : Request → State → Prop
  | .ackGroupLog u D rooms, s => ∀ x ∈ rooms, MayAck s x.1 u D x.2
  | _, _ => True

/-- Nothing has been handed out beyond the room's head. -/
def Unheard (s : State) (g : GroupId) : Prop :=
  ∀ event ∈ s.ext.logHanded, event.gid = g → event.seq ≤ s.db.head g

/-- A post takes sequences of a room only if nothing was handed out beyond its head. -/
def Cond : Request → Label → State → Prop
  | .sendGroupSealed body _ _, .nextGroupSeq, s => Unheard s body.groupId
  | .sendGroupBroadcast body _ _, .nextGroupSeq, s => Unheard s body.groupId
  | _, _, _ => True

def outline : Outline Db Ext Write Label Request where
  Inv := Inv
  Rely := fun _ _ => Rely
  Guar := fun _ _ => Guar
  Start := Start
  Cond := Cond
  Apart := fun _ _ _ _ => True

variable {s s' s'' : State} {g : GroupId} {u : Uin} {D : DeviceId} {v v' : ℤ}
  {seeds seeds' : Seeds} {ws new : List Write}

theorem Grows.refl (s : State) : Grows s s where
  head := fun _ => le_rfl
  kept := fun _ _ _ h => h
  fresh := fun _ _ _ h => .inl h
  handed := fun _ h => h
  seeded := fun _ h => h

theorem Grows.trans (h : Grows s s') (h' : Grows s' s'') : Grows s s'' where
  head := fun g => (h.head g).trans (h'.head g)
  kept := fun g seq row hrow => h'.kept g seq row (h.kept g seq row hrow)
  fresh := by
    intro g seq row hrow
    rcases h'.fresh g seq row hrow with hmid | ⟨hlt, hsame⟩
    · rcases h.fresh g seq row hmid with hold | ⟨hlt, hsame⟩
      · exact .inl hold
      · exact .inr ⟨hlt, fun u D v p hv hle => h'.handed _ (hsame u D v p hv hle)⟩
    · exact .inr ⟨(h.head g).trans_lt hlt, fun u D v p hv hle => hsame u D v p (h.handed _ hv) hle⟩
  handed := fun event hevent => h'.handed event (h.handed event hevent)
  seeded := fun seed hseed => h'.seeded seed (h.seeded seed hseed)

theorem Still.refl (g : GroupId) (s : State) : Still g s s :=
  ⟨rfl, fun _ => rfl, fun _ h _ _ => h⟩

theorem Still.trans (h : Still g s s') (h' : Still g s' s'') : Still g s s'' where
  head := h'.head.trans h.head
  rows := fun seq => (h'.rows seq).trans (h.rows seq)
  handed := by
    intro event hevent hgid hlt
    exact h.handed event (h'.handed event hevent hgid hlt) hgid (h'.head ▸ hlt)

theorem outline_coherent : outline.Coherent where
  rely_refl := fun _ _ _ s => ⟨.refl s, fun g _ => .refl g s⟩
  rely_trans := fun _ _ _ _ _ _ h h' =>
    ⟨h.toGrows.trans h'.toGrows, fun g hg => (h.locked g hg).trans (h'.locked g hg)⟩
  guar_refl := fun _ _ _ s => ⟨.refl s, fun g _ => .refl g s⟩
  rely_of_guar := by
    intro r _ ws r' _ ws' s s' _ hstep hlocks _
    exact ⟨Guar.toGrows hstep.guar, fun g hg => Guar.unlocked hstep.guar g (hlocks _ hg)⟩

/-! ## Positions that are covered -/

theorem Skipped.mono {seq : ℤ} (h : Skipped seeds g u D seq) (hsub : ∀ x ∈ seeds, x ∈ seeds') :
    Skipped seeds' g u D seq := by
  obtain ⟨head, hmem, hle⟩ := h
  exact ⟨head, hsub _ hmem, hle⟩

/-- What appears later below `v` is what the install was handed. -/
theorem Covered.mono (h : Covered seeds s g u D v) (hgrows : Grows s s') :
    Covered seeds s' g u D v := by
  constructor
  · rcases h.bounded with hle | ⟨payload, hhanded⟩
    · exact .inl (hle.trans (hgrows.head g))
    · exact .inr ⟨payload, hgrows.handed _ hhanded⟩
  · intro seq row hrow hvisible hle
    rcases hgrows.fresh g seq row hrow with hold | ⟨hlt, hsame⟩
    · rcases h.rows seq row hold hvisible hle with hhanded | hskipped
      · exact .inl (hgrows.handed _ hhanded)
      · refine .inr (hskipped.mono fun x hx => ?_)
        exact mem_append.mpr ((mem_append.mp hx).imp_right (hgrows.seeded x))
    · rcases h.bounded with hbound | ⟨payload, hhanded⟩
      · omega
      · exact .inl (hsame u D v payload hhanded hle)

theorem Covered.weaken (h : Covered seeds s g u D v) (hsub : ∀ x ∈ seeds, x ∈ seeds') :
    Covered seeds' s g u D v := by
  refine ⟨h.bounded, fun seq row hrow hvisible hle => ?_⟩
  refine (h.rows seq row hrow hvisible hle).imp_right fun hskipped => hskipped.mono fun x hx => ?_
  exact mem_append.mpr ((mem_append.mp hx).imp_left (hsub x))

theorem Covered.max (h : Covered seeds s g u D v) (h' : Covered seeds s g u D v') :
    Covered seeds s g u D (Max.max v v') := by
  rcases le_total v v' with hle | hle
  · rwa [max_eq_right hle]
  · rwa [max_eq_left hle]

theorem Covered.zero (hinv : Inv s) : Covered seeds s g u D 0 := by
  refine ⟨.inl (hinv.head g), fun seq row hrow _ hle => ?_⟩
  have := (hinv.rows g seq row hrow).1
  omega

/-- An install that is started at a head of the room has everything up to it behind. -/
theorem Covered.of_seed {head : ℤ} (hinv : Inv s) (hhead : head ≤ s.db.head g)
    (hmem : (g, u, D, head) ∈ seeds) : Covered seeds s g u D (Max.max 0 head) := by
  refine ⟨.inl (max_le (hinv.head g) hhead), fun seq row hrow _ hle => .inr ?_⟩
  have hpos := (hinv.rows g seq row hrow).1
  refine ⟨head, mem_append_left _ hmem, ?_⟩
  omega

/-- An ack that the install may make. -/
theorem Covered.of_mayAck (hinv : Inv s) (h : MayAck s g u D v) : Covered [] s g u D v := by
  refine ⟨.inr h.self, fun seq row hrow hvisible hle => ?_⟩
  rcases hle.lt_or_eq with hlt | rfl
  · by_cases hpos : position s.db g u D < seq
    · exact .inl (h.below seq row hrow hvisible hpos hlt)
    · -- at or below the cursor, if there is one
      cases hc : s.db.groupLogCursors.get (g, u, D) with
      | none =>
        have := (hinv.rows g seq row hrow).1
        simp only [position, hc, map_none, getD_none] at hpos
        omega
      | some c =>
        simp only [position, hc, map_some, getD_some] at hpos
        exact (hinv.cursors g u D c hc).rows seq row hrow hvisible (by omega)
  · obtain ⟨payload, hhanded⟩ := h.self
    obtain ⟨row', hrow', hpayload⟩ := hinv.handed _ hhanded (hinv.rows g seq row hrow).2
    obtain rfl : row' = row := some.inj (hrow'.symm.trans hrow)
    obtain rfl : row'.payload = payload := hpayload
    exact .inl hhanded

end RcqServer.RoomLog
