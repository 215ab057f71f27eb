import RcqServer.RoomLog.Reading

/-!
# Delivery of room posts

For every run of the message service from an empty store, whatever statement of whatever request
comes next: a committed row of a room's log that lies at or below an install's cursor was handed
to the install, or lies before the install's start in the room.

Two conditions on the schedule carry this.

* `HonestAck`: an install acks a sequence it was handed, after it was handed what lies below.
* `SeqsFresh`: a post takes sequences of a room only if nothing was handed out beyond the room's
  head.  The service does not see to that.  A broadcast publishes its live frame before it commits,
  and if it ends without a commit the next post gets the same sequence for another row, below the
  cursors of everybody who acked the frame (`log_row_buried_by_reused_seq`).
-/

namespace RcqServer.RoomLog

open ReadCommitted Messages Outline

/-! ## Conditions on a schedule -/

def HonestAck (w : World) : Action Request → Prop
  | .start (.ackGroupLog u D rooms) => ∀ x ∈ rooms, MayAck w.shared x.1 u D x.2
  | _ => True

def SeqsFresh (w : World) : Action Request → Prop
  | .step n => ∀ x ∈ w.upcoming n, Cond x.1 x.2 w.shared
  | _ => True

section Decidable

instance (row : LogRow) (u : Uin) : Decidable (Visible row u) :=
  inferInstanceAs (Decidable (_ = true))

instance (e : Ext) (g : GroupId) (u : Uin) (D : DeviceId) (seq : ℤ) (payload : String) :
    Decidable (Handed e g u D seq payload) :=
  inferInstanceAs (Decidable (_ ∈ e.logHanded))

instance (seeds : Seeds) (g : GroupId) (u : Uin) (D : DeviceId) (seq : ℤ) :
    Decidable (Skipped seeds g u D seq) :=
  decidable_of_iff (∃ x ∈ seeds, (x.1 = g ∧ x.2.1 = u ∧ x.2.2.1 = D) ∧ seq ≤ x.2.2.2) <| by
    constructor
    · rintro ⟨⟨g, u, D, head⟩, hmem, ⟨rfl, rfl, rfl⟩, hle⟩
      exact ⟨head, hmem, hle⟩
    · rintro ⟨head, hmem, hle⟩
      exact ⟨_, hmem, ⟨rfl, rfl, rfl⟩, hle⟩

theorem mayAck_iff {s : State} {g : GroupId} {u : Uin} {D : DeviceId} {v : ℤ} : MayAck s g u D v ↔
      (∃ event ∈ s.ext.logHanded,
        event.gid = g ∧ event.uin = u ∧ event.device = D ∧ event.seq = v) ∧
      ∀ x ∈ s.db.groupLog.rows, x.1.1 = g → Visible x.2 u → position s.db g u D < x.1.2 →
        x.1.2 < v → Handed s.ext g u D x.1.2 x.2.payload := by
  constructor
  · rintro ⟨⟨payload, hself⟩, hbelow⟩
    refine ⟨⟨_, hself, rfl, rfl, rfl, rfl⟩, ?_⟩
    rintro ⟨⟨g', seq⟩, row⟩ hmem rfl
    exact hbelow seq row (Table.mem_rows.mp hmem)
  · rintro ⟨⟨⟨u, D, g, v, payload⟩, hself, rfl, rfl, rfl, rfl⟩, hbelow⟩
    exact ⟨⟨payload, hself⟩,
      fun seq row hrow => hbelow ((g, seq), row) (Table.mem_rows.mpr hrow) rfl⟩

instance (s : State) (g : GroupId) (u : Uin) (D : DeviceId) (v : ℤ) :
    Decidable (MayAck s g u D v) :=
  decidable_of_iff _ mayAck_iff.symm

instance (s : State) (g : GroupId) : Decidable (Unheard s g) :=
  inferInstanceAs (Decidable (∀ event ∈ _, _))

/-- The room that a statement takes sequences of. -/
def seqRoom : Request → Label → Option GroupId
  | .sendGroupSealed body _ _, .nextGroupSeq => some body.groupId
  | .sendGroupBroadcast body _ _, .nextGroupSeq => some body.groupId
  | _, _ => none

theorem cond_iff_seqRoom {r : Request} {l : Label} {s : State} :
    Cond r l s ↔ ∀ g ∈ seqRoom r l, Unheard s g := by
  unfold Cond seqRoom
  split <;> simp

instance (r : Request) (l : Label) (s : State) : Decidable (Cond r l s) :=
  decidable_of_iff _ cond_iff_seqRoom.symm

instance : DecidableRel HonestAck := by
  rintro w ((_ | _) | _) <;> unfold HonestAck <;> infer_instance

instance : DecidableRel SeqsFresh := by
  rintro w (_ | _) <;> unfold SeqsFresh <;> infer_instance

end Decidable

/-! ## Every request keeps the invariant -/

variable {r : Request} {s : State}

/-- A handler that leaves the log alone. -/
private theorem safe_of_foreign {α : Type} {p : Handler α} (hp : p.Within Foreign Idle) :
    outline.Safe r p [] s :=
  safe_within (posting_framed r) hp (.nil s)

theorem wp_handler (cfg : Config) (r : Request) (s : State) (hinv : Inv s) (hstart : Start r s) :
    outline.Safe r (handler cfg r) [] s := by
  cases r with
  | sendGroupSealed body caller env => exact safe_map (wp_sendGroupSealed cfg body caller env) _
  | sendGroupBroadcast body caller env =>
    exact safe_map (wp_sendGroupBroadcast cfg body caller env) _
  | fetchGroupLog u D body => exact safe_map (wp_fetchGroupLog u D body) _
  | ackGroupLog u D rooms => exact safe_map (wp_ackGroupLog hinv hstart) _
  | join g u refusal => exact safe_map (wp_joinGroup g u refusal) _
  | tick seconds =>
    refine safe_map (safe_of_foreign (.effect ?_)) _
    exact fun _ _ => ⟨rfl, rfl⟩
  | _ =>
    refine safe_map (safe_of_foreign ?_) _
    simp [Foreign.eq_def, Idle.eq_def, Ext.hand.eq_def, Ext.drain.eq_def, Ext.ack.eq_def,
      Ext.allocate.eq_def]

theorem inv_empty (users : Table Uin UserRow) (groups : Table GroupId GroupRow)
    (members : Table (GroupId × Uin) Unit) (now : Time) :
    Inv ⟨.empty users groups members, .initial now, []⟩ where
  head := fun g => by simp [Db.head, Db.empty]
  rows := fun g seq row h => absurd h (by simp [Db.empty])
  cursors := fun g u D c h => absurd h (by simp [Db.empty])
  handed := nofun

/-- **Room posts.**  A row at or below an install's cursor was handed to the install, unless the
install was started in the room beyond it. -/
theorem log_row_handed_first {cfg : Config} {users : Table Uin UserRow}
    {groups : Table GroupId GroupRow} {members : Table (GroupId × Uin) Unit} {now : Time}
    {w : World} (hrun : World.Run (handler cfg) (fun w a => HonestAck w a ∧ SeqsFresh w a)
      (.fresh (.empty users groups members) (.initial now)) w)
    {g : GroupId} {u : Uin} {D : DeviceId} {c : LogCursor} {seq : ℤ} {row : LogRow}
    (hc : w.shared.db.groupLogCursors.get (g, u, D) = some c)
    (hrow : w.shared.db.groupLog.get (g, seq) = some row) (hvisible : Visible row u)
    (hle : seq ≤ c.lastSeq) (hstart : ¬Skipped w.shared.ext.seeded g u D seq) :
    Handed w.shared.ext g u D seq row.payload := by
  have hallowed : ∀ (w : World) a, HonestAck w a ∧ SeqsFresh w a → outline.Allows w a := by
    rintro w (r | n | n) ⟨hhonest, hfresh⟩
    · cases r with
      | ackGroupLog u D rooms => exact hhonest
      | _ => exact trivial
    · intro r p ws hn
      refine ⟨fun l hl => hfresh (r, l) ?_, fun _ _ _ _ _ _ _ _ _ => trivial⟩
      simp [World.upcoming, hn, Session.upcoming, Option.mem_def.mp hl]
    · exact trivial
  have hinv : Inv w.shared := inv_of_run outline_coherent (wp_handler cfg)
    (inv_empty users groups members now) (hrun.mono hallowed)
  exact ((hinv.cursors g u D c hc).rows seq row hrow hvisible hle).resolve_right hstart

/-- A store with the account 7, alone in room 1, which it owns. -/
abbrev oneMember : World :=
  .fresh (.empty ((∅ : Table Uin UserRow).set 7 (some ⟨some 0, true⟩))
    ((∅ : Table GroupId GroupRow).set 1 (some ⟨7, .all⟩))
    ((∅ : Table (GroupId × Uin) Unit).set (1, 7) (some ()))) (.initial 1000)

/-- A broadcast of account 7 into room 1, with the sockets that take the live frame. -/
def broadcast (payload : String) (sockets : List (Uin × DeviceId)) : Request :=
  .sendGroupBroadcast ⟨1, .message, payload⟩ (some 7) ⟨none, none, none, [7], sockets, []⟩

/-- Install 1 becomes a reader and takes the live frame of a broadcast that has not committed. -/
def liveFrame : List (Action Request) :=
  .start (Request.fetchGroupLog 7 1 ⟨none, 500⟩) :: steps 0 20 ++
    .start (broadcast "one" [(7, 1)]) :: steps 1 9

def ackOne : List (Action Request) :=
  .start (Request.ackGroupLog 7 1 [(1, 1)]) :: steps 2 20

/-- The install acks the frame, then the broadcast commits. -/
abbrev ackedLive : World :=
  oneMember.play (handler ⟨14, false⟩) (liveFrame ++ ackOne ++ steps 1 20)

theorem log_row_handed_first_live : Handed ackedLive.shared.ext 1 7 1 1 "one" := by
  have hrun : World.Run (handler ⟨14, false⟩) (fun w a => HonestAck w a ∧ SeqsFresh w a) oneMember
      ackedLive := .of_play _ (by decide +kernel)
  have hc : ackedLive.shared.db.groupLogCursors.get (1, 7, 1) = some ⟨1, 1000⟩ := by
    decide +kernel
  have hrow : ackedLive.shared.db.groupLog.get (1, 1) =
      some ⟨none, .gmsg, 1, "one", 1000⟩ := by
    decide +kernel
  exact log_row_handed_first hrun hc hrow rfl le_rfl (by decide +kernel)

/-- Without `SeqsFresh` a row can appear below the cursor of an install that never saw it: the
broadcast ends without a commit, the install acks its frame, and the next broadcast gets the same
sequence. -/
theorem log_row_buried_by_reused_seq : ∃ w : World,
    World.Run (handler ⟨14, false⟩) HonestAck oneMember w ∧
      ∃ c row, w.shared.db.groupLogCursors.get (1, 7, 1) = some c ∧
        w.shared.db.groupLog.get (1, 1) = some row ∧ Visible row 7 ∧ 1 ≤ c.lastSeq ∧
        ¬Skipped w.shared.ext.seeded 1 7 1 1 ∧ ¬Handed w.shared.ext 1 7 1 1 row.payload := by
  refine ⟨_, .of_play (liveFrame ++ [.kill 1] ++ ackOne ++
    .start (broadcast "two" []) :: steps 3 20) (by decide +kernel),
    ⟨1, 1000⟩, ⟨none, .gmsg, 1, "two", 1000⟩, ?_⟩
  decide +kernel

end RcqServer.RoomLog
