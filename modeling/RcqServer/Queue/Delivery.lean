import RcqServer.Queue.Readers
import RcqServer.Queue.Writers

/-!
# Delivery of queued rows

What the offline queue promises an install, for every run of the message service from an empty
store: whatever statement of whatever request comes next, a row that is owed to an install has
been handed to it by the time the install's own cursor reaches the row, and by the time the row is
deleted.

The promise needs conditions on the schedule, each of which the service itself does not enforce.

* `HonestAck`: a client acks what it was handed.
* `FloorStands`: an ack that found no cursor for its install reads the account's watermark only
  while there is still none.  If a fetch pins a cursor in between, the ack lifts that cursor onto
  the watermark, over rows that only the siblings have read (`sealed_row_lost_to_racing_ack`).
* `InOrder`, for group rows only: rows of one account are committed in the order of their ids.
  Deposits of 1:1 rows hold the mailbox lock from before the id is taken until they commit; group
  posts hold nothing of the sort (`group_row_passed_before_commit`).
-/

namespace RcqServer.Queue

open ReadCommitted Messages World Outline

/-! ## Conditions on a schedule -/

/-- An install acks only rows that it was handed. -/
def HonestAck (w : World) : Action Request → Prop
  | .start (.ackQueue u D body _) =>
    ∀ event ∈ queueEvents u D body.directIds body.groupIds, event ∈ w.shared.ext.handed
  | _ => True

/-- An ack that found no cursor reads the watermark only while there is none. -/
def FloorStands (w : World) : Action Request → Prop
  | .step n => ∀ x ∈ w.upcoming n, Cond x.1 x.2 w.shared
  | _ => True

/-- The group rows among pending writes, with the account that each is for. -/
def groupInserts (ws : List Write) : List (Uin × ℕ) :=
  ws.filterMap fun
    | .queued .group id (some row) => some (row.toUin, id)
    | _ => none

/-- A session that commits group rows finds no other with a smaller id for the same account. -/
def InOrder (w : World) : Action Request → Prop
  | .step n => w.committing n → ∀ m < w.sessions.length, m ≠ n →
      ∀ x ∈ groupInserts (w.pending n), ∀ y ∈ groupInserts (w.pending m), x.1 = y.1 → x.2 < y.2
  | _ => True

/-- The install drains and acks as the libsignal device `d`. -/
def AsksAs (u : Uin) (D : DeviceId) (d : ℕ) : Action Request → Prop
  | .start (.fetchQueue u' D' _ dev) => u' = u → D' = D → dev = d
  | .start (.ackQueue u' D' _ dev) => u' = u → D' = D → dev = d
  | _ => True

section Decidable

instance (db : Db) (u : Uin) (D : DeviceId) : Decidable (HasCursor db u D) :=
  decidable_of_iff _ Option.isSome_iff_exists

instance (ax : Axis) (db : Db) (u : Uin) (id : ℕ) : Decidable (Holds ax db u id) :=
  decidable_of_iff (∃ row ∈ (db.queue ax).get id, row.toUin = u) Iff.rfl

instance {ax : Axis} {lane : Lane} [∀ u D t, Decidable (lane u D t)] (db : Db) (u : Uin)
    (D : DeviceId) (id : ℕ) : Decidable (Tracks ax lane db u D id) :=
  decidable_of_iff (∃ row ∈ (db.queue ax).get id, row.toUin = u ∧ lane u D row.toDeviceId) Iff.rfl

instance OwedIn.decidable {ax : Axis} {lane : Lane} [∀ u D t, Decidable (lane u D t)] (u : Uin)
    (D : DeviceId) (id : ℕ) :
    ∀ (db : Db) (past : List Db), Decidable (OwedIn ax lane u D id db past)
  | _, [] => isFalse nofun
  | _, prev :: past =>
    have : Decidable (OwedIn ax lane u D id prev past) := OwedIn.decidable u D id prev past
    decidable_of_iff _ owedIn_cons.symm

instance {ax : Axis} {lane : Lane} [∀ u D t, Decidable (lane u D t)] (s : State) (u : Uin)
    (D : DeviceId) (id : ℕ) : Decidable (Owed ax lane s u D id) :=
  OwedIn.decidable u D id s.db s.hist

instance (ax : Axis) (e : Ext) (u : Uin) (D : DeviceId) (id : ℕ) : Decidable (Handed ax e u D id) :=
  inferInstanceAs (Decidable (_ ∈ e.handed))

instance (r : Request) (l : Label) (s : State) : Decidable (Cond r l s) := by
  unfold Cond
  split <;> infer_instance

instance : DecidableRel HonestAck := by
  rintro w ((_ | _) | _) <;> unfold HonestAck <;> infer_instance

instance : DecidableRel FloorStands := by
  rintro w (_ | _) <;> unfold FloorStands <;> infer_instance

instance : DecidableRel InOrder := by
  rintro w (_ | _) <;> unfold InOrder <;> infer_instance

instance (u : Uin) (D : DeviceId) (d : ℕ) : (a : Action Request) → Decidable (AsksAs u D d a)
  | .start r => by
    cases r <;> unfold AsksAs <;> infer_instance
  | .step _ | .kill _ => isTrue trivial

end Decidable

/-! ## The conditions are those of the outline -/

variable {u : Uin} {id : ℕ} {w : World} {D : DeviceId} {cfg : Config} {users : Table Uin UserRow}
  {groups : Table GroupId GroupRow} {members : Table (GroupId × Uin) Unit} {now : Time}
  {ws : List Write}

theorem mem_groupInserts :
    (u, id) ∈ groupInserts ws ↔ ∃ row, Write.queued .group id (some row) ∈ ws ∧ row.toUin = u := by
  simp only [groupInserts, List.mem_filterMap]
  constructor
  · rintro ⟨w, hw, hsome⟩
    split at hsome
    · cases hsome
      exact ⟨_, hw, rfl⟩
    · cases hsome
  · rintro ⟨row, hw, rfl⟩
    exact ⟨_, hw, rfl⟩

private theorem cond_of_floorStands {n : ℕ} (h : FloorStands w (.step n)) {r : Request}
    {p : Handler Answer} (hn : w.sessions[n]? = some (.running r p ws)) :
    ∀ l ∈ p.label?, Cond r l w.shared := by
  intro l hl
  exact h (r, l) (upcoming_of_running hn hl)

private theorem apart_of_inOrder {n : ℕ} (h : InOrder w (.step n)) {r : Request}
    {p : Handler Answer} (hn : w.sessions[n]? = some (.running r p ws))
    (hcommit : p.atCommit) (m : ℕ) {r' : Request} {p' : Handler Answer} {ws' : List Write}
    (hm : m ≠ n) (hother : w.sessions[m]? = some (.running r' p' ws')) : Apart .group ws ws' := by
  intro _ id id' row row' hrow hrow' huin
  have hpending : w.pending n = ws := by simp [pending, hn, Session.pending]
  have hpending' : w.pending m = ws' := by simp [pending, hother, Session.pending]
  refine h (committing_of_running hn hcommit) m (List.getElem?_eq_some_iff.mp hother).1 hm (row.toUin, id) ?_
    (row'.toUin, id') ?_ huin
  · rw [hpending]
    exact mem_groupInserts.mpr ⟨row, hrow, rfl⟩
  · rw [hpending']
    exact mem_groupInserts.mpr ⟨row', hrow', rfl⟩

/-! ## Every request keeps the invariant -/

variable {ax : Axis} {lane : Lane}

theorem wp_handler (cfg : Config) (r : Request) (s : State) (hinv : Inv ax lane s)
    (hstart : Start ax lane r s) : (outline ax lane).Safe r (handler cfg r) [] s := by
  cases r with
  | sendSealed body online => exact safe_map (wp_sendSealed cfg body online) _
  | sendGroupSealed body caller env =>
    exact safe_map (wp_sendGroupSealed cfg body caller env) _
  | sendGroupBroadcast body caller env =>
    exact safe_map (wp_sendGroupBroadcast cfg body caller env) _
  | fetchQueue u D ack dev => exact safe_map (wp_fetchQueue hinv hstart) _
  | ackQueue u D body dev => exact safe_map (wp_ackQueue hstart.1 hstart.2) _
  | fetchGroupLog u D body => exact safe_map (wp_fetchGroupLog u D body) _
  | ackGroupLog u D rooms => exact safe_map (wp_ackGroupLog u D rooms) _
  | join gid u refusal => exact safe_map (wp_joinGroup gid u refusal) _
  | tick seconds => exact safe_map (wp_tick seconds) _
  | seen u => exact safe_map (wp_touchUser u) _

/-- Nothing is queued in an empty store, and nobody has a cursor. -/
theorem inv_empty (users : Table Uin UserRow) (groups : Table GroupId GroupRow)
    (members : Table (GroupId × Uin) Unit) (now : Time) :
    Inv ax lane ⟨.empty users groups members, .initial now, []⟩ := by
  have hnone : ∀ u id, ¬Ever ax ⟨.empty users groups members, .initial now, []⟩ u id := by
    rintro u id ⟨db, hdb, row, hget, -⟩
    cases List.mem_singleton.mp hdb
    cases ax <;> exact absurd hget (by simp [Db.empty, Db.queue])
  exact {
    start := by cases ax <;> exact Nat.one_pos
    fresh := fun u id h => absurd h (hnone u id)
    owner := fun u _ id h => absurd h (hnone u id)
    honest := fun _ h => h
    drained := fun _ h => h
    marks := fun u D c h => absurd h (by simp [Db.empty])
    passed := fun u D c id h => absurd h (by simp [Db.empty])
    kept := fun u D id h => (by cases h)
    tracks := fun u D id h => (by cases h) }

/-- The invariant of one queue and one lane, for every run under the conditions of its outline. -/
theorem inv_of_run {ok : World → Action Request → Prop}
    (hok : ∀ w a, ok w a → (outline ax lane).Allows w a)
    (hrun : Run (handler cfg) ok (.fresh (.empty users groups members) (.initial now)) w) :
    Inv ax lane w.shared :=
  Outline.inv_of_run (outline_coherent ax lane) (wp_handler cfg)
    (inv_empty users groups members now) (hrun.mono hok)

/-- The condition that an install's cursor, or the deletion of a row, has left the row behind. -/
def Behind (ax : Axis) (s : State) (u : Uin) (D : DeviceId) (id : ℕ) : Prop :=
  (∃ c, s.db.queueCursors.get (u, D) = some c ∧ id ≤ c.mark ax) ∨ ¬Holds ax s.db u id

instance (ax : Axis) (s : State) (u : Uin) (D : DeviceId) (id : ℕ) :
    Decidable (Behind ax s u D id) :=
  decidable_of_iff ((∃ c ∈ s.db.queueCursors.get (u, D), id ≤ c.mark ax) ∨ ¬Holds ax s.db u id)
    Iff.rfl

theorem Inv.settled_of_behind {s : State} (h : Inv ax lane s)
    (howed : Owed ax lane s u D id) (hbehind : Behind ax s u D id) : Settled ax s.ext u D id := by
  rcases hbehind with ⟨c, hc, hle⟩ | hgone
  · exact h.passed u D c id hc howed hle
  · exact h.kept u D id howed hgone

theorem Inv.handed_of_settled {s : State} (h : Inv ax lane s)
    (hsettled : Settled ax s.ext u D id) : Handed ax s.ext u D id :=
  hsettled.elim (h.drained _) (h.honest _)

/-! ## 1:1 rows for every install -/

/-- Rows without an addressee among the devices, which every install reads. -/
def everyone : Lane := fun _ _ t => t = none

instance (u : Uin) (D : DeviceId) (t : Option ℕ) : Decidable (everyone u D t) :=
  inferInstanceAs (Decidable (t = none))

/-- **1:1 rows.**  A row that every install of the account reads has been handed to an install it
is owed to by the time the install's cursor reaches it, and by the time it is deleted. -/
theorem sealed_row_handed_first
    (hrun : Run (handler cfg) (fun w a => HonestAck w a ∧ FloorStands w a)
      (.fresh (.empty users groups members) (.initial now)) w) (howed : Owed .direct everyone w.shared u D id)
    (hbehind : Behind .direct w.shared u D id) : Handed .direct w.shared.ext u D id := by
  have hinv : Inv .direct everyone w.shared := by
    refine inv_of_run (fun w a hok => ?_) hrun
    obtain ⟨hhonest, hfloor⟩ := hok
    cases a with
    | start r =>
      cases r with
      | fetchQueue u D ack dev => exact fun _ t ht => .inl ht
      | ackQueue u D body dev => exact ⟨fun _ t ht => .inl ht, hhonest⟩
      | _ => exact trivial
    | step n =>
      intro r p ws hn
      exact ⟨cond_of_floorStands hfloor hn, fun _ _ _ _ _ _ _ _ _ hax => (by cases hax)⟩
    | kill n => exact trivial
  exact hinv.handed_of_settled (hinv.settled_of_behind howed hbehind)

/-- A store with the account 7, alone in room 1. -/
abbrev oneMember : World :=
  .fresh (.empty ((∅ : Table Uin UserRow).set 7 (some ⟨some 0, true⟩)) ∅
    ((∅ : Table (GroupId × Uin) Unit).set (1, 7) (some ()))) (.initial 1000)

/-- The world after a schedule, from there. -/
abbrev after (schedule : List (Action Request)) : World :=
  oneMember.play (handler ⟨14, false⟩) schedule

/-- A deposit for account 7. -/
def deposit (toDeviceId : Option ℕ) : Request :=
  .sendSealed ⟨7, .message, none, "sealed", none, toDeviceId⟩ false

/-- Install 1 pins its cursor, a row arrives, and a legacy drain takes it. -/
def drainSchedule (arrival : Request) : List (Action Request) :=
  .start (Request.fetchQueue 7 1 true 1) :: steps 0 20 ++ .start arrival :: steps 1 20 ++
    .start (Request.fetchQueue 7 1 false 1) :: steps 2 20

theorem sealed_row_handed_first_drain :
    Handed .direct (after (drainSchedule (deposit none))).shared.ext 7 1 1 := by
  have hrun : Run (handler ⟨14, false⟩) (fun w a => HonestAck w a ∧ FloorStands w a)
      oneMember (after (drainSchedule (deposit none))) := .of_play _ (by decide +kernel)
  exact sealed_row_handed_first hrun (by decide +kernel) (by decide +kernel)

/-- An ack of install 1 finds no cursor; a fetch pins one at 0; a row arrives, and install 2 reads
and acks it; the first ack goes on. -/
def racingAckSchedule : List (Action Request) :=
  .start (Request.ackQueue 7 1 ⟨[], []⟩ 1) :: steps 0 1 ++
    .start (Request.fetchQueue 7 1 true 1) :: steps 1 20 ++ .start (deposit none) :: steps 2 20 ++
    .start (Request.fetchQueue 7 2 true 1) :: steps 3 20 ++
    .start (Request.ackQueue 7 2 ⟨[1], []⟩ 1) :: steps 4 20 ++ steps 0 20

/-- Without `FloorStands` a row can be deleted unread: the racing ack takes the watermark, which
is the row's id by then, for the floor of install 1, and lifts its cursor there. -/
theorem sealed_row_lost_to_racing_ack : ∃ w : World,
    Run (handler ⟨14, false⟩) HonestAck oneMember w ∧
      Owed .direct everyone w.shared 7 1 1 ∧ Behind .direct w.shared 7 1 1 ∧
      ¬Holds .direct w.shared.db 7 1 ∧ ¬Handed .direct w.shared.ext 7 1 1 :=
  ⟨_, .of_play racingAckSchedule (by decide +kernel), by decide +kernel⟩

/-! ## Group rows -/

/-- Every install reads the group rows of its account. -/
def wholeRoom : Lane := fun _ _ _ => True

instance (u : Uin) (D : DeviceId) (t : Option ℕ) : Decidable (wholeRoom u D t) :=
  isTrue trivial

/-- A post into room 1. -/
def post (payload : String) : Request :=
  .sendGroupSealed ⟨1, .message, [⟨7, payload⟩]⟩ none ⟨none, none, none, [], [], []⟩

/-- Install 1 pins its cursor; a post inserts row 1 and waits; another inserts row 2 and commits;
a legacy drain takes row 2; the first post commits. -/
def overlappingPostsSchedule : List (Action Request) :=
  .start (Request.fetchQueue 7 1 true 1) :: steps 0 20 ++ .start (post "one") :: steps 1 7 ++
    .start (post "two") :: steps 2 20 ++ .start (Request.fetchQueue 7 1 false 1) :: steps 3 20 ++
    steps 1 20

/-- The rows for libsignal device `d`, which are owed to one install of the account. -/
def fanOut (u : Uin) (D : DeviceId) (d : ℕ) : Lane :=
  fun u' D' t => u' = u ∧ D' = D ∧ t = some d

instance (u : Uin) (D : DeviceId) (d : ℕ) (u' : Uin) (D' : DeviceId) (t : Option ℕ) :
    Decidable (fanOut u D d u' D' t) :=
  inferInstanceAs (Decidable (_ ∧ _))

/-- **Fan-out rows.**  A row for device `d` that is owed to the install draining as `d` is neither
at or below that install's cursor nor deleted, unless the install drained it with a legacy fetch,
or was handed it and acked it. -/
theorem fanOut_row_settled_first {d : ℕ}
    (hrun : Run (handler cfg) (fun w a => HonestAck w a ∧ FloorStands w a ∧ AsksAs u D d a)
      (.fresh (.empty users groups members) (.initial now)) w) (howed : Owed .direct (fanOut u D d) w.shared u D id)
    (hbehind : Behind .direct w.shared u D id) : ⟨u, D, .direct, id⟩ ∈ w.shared.ext.drained ∨
      (Handed .direct w.shared.ext u D id ∧ ⟨u, D, .direct, id⟩ ∈ w.shared.ext.acked) := by
  have hinv : Inv .direct (fanOut u D d) w.shared := by
    refine inv_of_run (fun w a hok => ?_) hrun
    obtain ⟨hhonest, hfloor, hasks⟩ := hok
    cases a with
    | start r =>
      cases r with
      | fetchQueue u' D' ack dev =>
        rintro - t ⟨hu, hD, rfl⟩
        exact .inr (by rw [hasks hu hD])
      | ackQueue u' D' body dev =>
        refine ⟨?_, hhonest⟩
        rintro - t ⟨hu, hD, rfl⟩
        exact .inr (by rw [hasks hu hD])
      | _ => exact trivial
    | step n =>
      intro r p ws hn
      exact ⟨cond_of_floorStands hfloor hn, fun _ _ _ _ _ _ _ _ _ hax => (by cases hax)⟩
    | kill n => exact trivial
  have hsettled := hinv.settled_of_behind howed hbehind
  exact hsettled.imp_right fun hacked => ⟨hinv.handed_of_settled hsettled, hacked⟩

theorem fanOut_row_settled_first_drain : ∃ w : World, ⟨7, 1, .direct, 1⟩ ∈ w.shared.ext.drained ∨
      (Handed .direct w.shared.ext 7 1 1 ∧ ⟨7, 1, .direct, 1⟩ ∈ w.shared.ext.acked) := by
  have hrun : Run (handler ⟨14, false⟩)
      (fun w a => HonestAck w a ∧ FloorStands w a ∧ AsksAs 7 1 1 a)
      oneMember (after (drainSchedule (deposit (some 1)))) := .of_play _ (by decide +kernel)
  exact ⟨_, fanOut_row_settled_first hrun (by decide +kernel) (by decide +kernel)⟩

/-- Install 1, which drains as device 1, pins its cursor; a row for device 2 and one for everyone
arrive; install 1 drains; install 2, which drains as device 2, asks for the first time. -/
def unseenInstallSchedule : List (Action Request) :=
  .start (Request.fetchQueue 7 1 true 1) :: steps 0 20 ++ .start (deposit (some 2)) :: steps 1 20 ++
    .start (deposit none) :: steps 2 20 ++ .start (Request.fetchQueue 7 1 false 1) :: steps 3 20 ++
    .start (Request.fetchQueue 7 2 true 2) :: steps 4 20

/-- An install that has not asked before the row arrives is owed nothing: the drain of a sibling,
which is not even shown the row, deletes it, and the floor of the new install is above it. -/
theorem fanOut_row_lost_to_sibling : ∃ w : World, Run (handler ⟨14, false⟩)
      (fun w a => HonestAck w a ∧ FloorStands w a ∧ AsksAs 7 1 1 a ∧ AsksAs 7 2 2 a) oneMember w ∧
      (∃ db ∈ w.shared.hist, ∃ row ∈ db.offlineMessages.get 1,
        row.toUin = 7 ∧ row.toDeviceId = some 2) ∧
      Behind .direct w.shared 7 2 1 ∧ ¬Holds .direct w.shared.db 7 1 ∧
      ∀ event ∈ w.shared.ext.handed, event.id ≠ 1 :=
  ⟨_, .of_play unseenInstallSchedule (by decide +kernel), by decide +kernel⟩

end RcqServer.Queue
