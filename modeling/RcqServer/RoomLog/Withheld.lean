import RcqServer.RoomLog.Marks

/-!
# Posts whose legacy rows are withheld

When every install of an account reads the room logs, the writers stop queueing legacy rows for
it.  For every history of requests, one served after the other from an empty store: a post whose
legacy row is withheld from an account is in the room's log, and every marked install of the
account has a cursor below it there, so that a later fetch of the room serves it or says that
there is more.

The service does not see to this by itself.  A mark is earned by a fetch or an ack of some rooms
and counts for all of them (`withheld_post_never_served`), so the history is asked that a mark is
only earned once the install has a cursor in every room of its account (`MarksWhole`).
-/

namespace RcqServer.RoomLog

open ReadCommitted Messages List Prog

/-- Some wanted room has a row to serve, from whichever position it is read. -/
def Backlog (db : Db) (u : Uin) (D : DeviceId) (body : GroupLogFetchIn) : Prop :=
  ∃ x ∈ wantedOf db u body, ∀ y ∈ wantedOf db u body, y.1 = x.1 →
    db.visibleRows u x.1 (y.2.getD (readFrom db u D x.1)) ≠ []

/-- No mark is earned in some of the rooms of an account only.

A fetch earns a mark if its answer is empty, an ack if it moves a cursor; neither matters for an
install that has its mark already.  The limit of a fetch is at least 1 by its schema, and an ack
beyond the head gives up rows that are not there yet. -/
def MarksWhole (s : State) : Request → Prop
  | .fetchGroupLog u D body => 0 < body.limit ∧
      ((s.db.groupLogReaders.get (u, D)).isSome ∨ Backlog s.db u D body ∨
        Complete s.db u D ((wantedOf s.db u body).map Prod.fst))
  | .ackGroupLog u D rooms => (∀ x ∈ rooms, x.2 ≤ s.db.head x.1) ∧
      ((s.db.groupLogReaders.get (u, D)).isSome ∨ NothingNew s.db u D rooms ∨
        Complete s.db u D (rooms.map Prod.fst))
  | _ => True

variable {cfg : Config} {s s' : State} {u : Uin} {D : DeviceId} {g : GroupId}

/-! ## Every request keeps the invariant -/

variable {r : Request} {db db' : Db} {body : GroupLogFetchIn} {a : Answer}

/-- With a backlog the answer of a fetch is not empty. -/
theorem Backlog.rows_ne_nil {out : GroupLogFetchOut}
    (hbacklog : Backlog s.db u D body) (hok : MarksOk s.db) (hlimit : 0 < body.limit)
    (h : Fetched u D body s out s') : out.rows ≠ [] := by
  obtain ⟨x, hx, hall⟩ := hbacklog
  have hbehind : ∀ y ∈ wantedOf s.db u body, y.1 = x.1 →
      y.2.getD (readFrom s.db u D x.1) < s.db.head x.1 := by
    intro y hy hyx
    obtain ⟨⟨seq, row⟩, hrow⟩ := exists_mem_of_ne_nil _ (hall y hy hyx)
    obtain ⟨hget, hlt, -⟩ := mem_visibleRows.mp hrow
    exact hlt.trans_le (hok.rows x.1 seq row hget)
  obtain ⟨y, hy, hyx, hstart⟩ := exists_start hbehind ⟨x, hx, rfl⟩
  exact h.rows_ne_nil hlimit hstart (hall y hy hyx)

theorem MarksOk.fetched {out : GroupLogFetchOut} (hok : MarksOk s.db)
    (hcond : MarksWhole s (.fetchGroupLog u D body)) (h : Fetched u D body s out s') :
    MarksOk s'.db := by
  obtain ⟨hlimit, hmark⟩ := hcond
  obtain ⟨db', hseeded, hsame | ⟨hempty, hmarked⟩⟩ := h.db
  · rw [hsame]
    exact hok.seed hseeded
  · have hcomplete : Complete s.db u D ((wantedOf s.db u body).map Prod.fst) := by
      rcases hmark with hold | hbacklog | hcomplete
      · exact hok.complete hold _
      · exact absurd hempty (hbacklog.rows_ne_nil hok hlimit h)
      · exact hcomplete
    exact (hok.seed hseeded).mark (fun g hg => hcomplete.of_seeded hseeded hg) hmarked

theorem MarksOk.acked {rooms : List (GroupId × ℤ)} (hok : MarksOk s.db)
    (hcond : MarksWhole s (.ackGroupLog u D rooms)) (hacked : Acked u D rooms s.db db')
    (h : s'.db = db' ∨ ¬NothingNew s.db u D rooms ∧ Marked u D db' s'.db) : MarksOk s'.db := by
  obtain ⟨hupto, hmark⟩ := hcond
  rcases h with hsame | ⟨hnew, hmarked⟩
  · rw [hsame]
    exact hok.ack hupto hacked
  · have hcomplete : Complete s.db u D (rooms.map Prod.fst) := by
      rcases hmark with hold | hnothing | hcomplete
      · exact hok.complete hold _
      · exact absurd hnothing hnew
      · exact hcomplete
    exact (hok.ack hupto hacked).mark (fun g hg => hcomplete.of_acked hacked hg) hmarked

/-- Writes to tables that the logs have nothing to do with. -/
def Aside : Write → Prop
  | .user _ _ | .mailboxSeq _ _ | .queued _ _ _ | .cursor _ _ _ => True
  | _ => False

theorem MarksOk.aside {w : Write} {d : Db} (hw : Aside w) (h : MarksOk d) :
    MarksOk (Store.apply w d) := by
  cases w with
  | queued ax id row => cases ax <;> exact ⟨h.seated, h.cursors, h.head, h.rows⟩
  | user _ _ | mailboxSeq _ _ | cursor _ _ _ => exact ⟨h.seated, h.cursors, h.head, h.rows⟩
  | _ => exact hw.elim

/-- A handler that is followed by packing its answer. -/
private theorem wlp_map {α : Type} {p : Handler α} {f : α → Answer} {R P : State → Prop}
    (h : p.wlp R (fun _ _ s => P s) [] s) :
    (p.bind fun a => .ret (f a)).wlp R (fun _ _ s => P s) [] s :=
  wlp_seq h fun _ _ _ h => h

/-- A handler whose writes all keep a property of the store. -/
private theorem wlp_keeps {α : Type} {p : Handler α} {W : Write → Prop} {P : Db → Prop}
    (hW : ∀ w d, W w → P d → P (Store.apply w d)) (hp : p.Within W fun _ _ => True)
    (h : P s.db) : p.wlp (fun s => P s.db) (fun _ _ s => P s.db) [] s :=
  wlp_mono (wlp_within hW hp (.nil h)) fun _ _ _ h => h.1

/-- Every request keeps the invariant. -/
theorem marksOk_exec (hok : MarksOk s.db) (hcond : MarksWhole s r) :
    MarksOk ((handler cfg r).exec s).2.db := by
  refine exec_inv (P := fun s => MarksOk s.db) ?_
  have haside : ∀ w d, Aside w → MarksOk d → MarksOk (Store.apply w d) := fun _ _ => MarksOk.aside
  cases r with
  | sendGroupSealed body caller env =>
    refine wlp_map (wlp_weaken (wlp_sendGroupSealed cfg body caller env hok) ?_ ?_)
    · exact fun s' hs' => by rw [hs']; exact hok
    · exact fun _ _ _ h => hok.post h.1
  | sendGroupBroadcast body caller env =>
    refine wlp_map (wlp_weaken (wlp_sendGroupBroadcast cfg body caller env hok) ?_ ?_)
    · exact fun s' hs' => by rw [hs']; exact hok
    · exact fun _ _ _ h => hok.post h.1
  | fetchGroupLog u D body =>
    refine wlp_map (wlp_weaken (wlp_fetchGroupLog hcond.1) ?_ ?_)
    · exact fun _ h => h.elim
    · exact fun _ _ _ h => hok.fetched hcond h
  | ackGroupLog u D rooms =>
    refine wlp_map (wlp_weaken wlp_ackGroupLog ?_ ?_)
    · exact fun _ h => h.elim
    · rintro _ _ s' ⟨-, db', hacked, hmark⟩
      exact hok.acked hcond hacked hmark
  | join g u refusal => exact wlp_map (wlp_joinGroup hok)
  | tick seconds => exact hok
  | _ => exact wlp_map (wlp_keeps haside (by simp [Aside.eq_def]) hok)

/-! ## What is there stays -/

/-- Rows and members stay, and heads only grow. -/
structure Extends (db db' : Db) : Prop where
  rows : ∀ k row, db.groupLog.get k = some row → db'.groupLog.get k = some row
  members : ∀ k, (db.members.get k).isSome → (db'.members.get k).isSome
  head : ∀ g, db.head g ≤ db'.head g

theorem Extends.refl (db : Db) : Extends db db := ⟨fun _ _ h => h, fun _ h => h, fun _ => le_rfl⟩

theorem Extends.trans {db'' : Db} (h : Extends db db') (h' : Extends db' db'') :
    Extends db db'' where
  rows := fun k row hrow => h'.rows k row (h.rows k row hrow)
  members := fun k hk => h'.members k (h.members k hk)
  head := fun g => (h.head g).trans (h'.head g)

theorem Posted.extends (h : Posted g db db') : Extends db db' :=
  ⟨h.kept, fun k hk => by rw [h.members]; exact hk, h.head⟩

/-- Writes that no post makes, and that delete no member. -/
def Tame : Write → Prop
  | .log _ _ _ | .groupSeq _ _ | .member _ _ none => False
  | _ => True

theorem Extends.tame {db₀ d : Db} {w : Write} (hw : Tame w) (h : Extends db₀ d) :
    Extends db₀ (Store.apply w d) := by
  cases w with
  | queued ax id row => cases ax <;> exact ⟨h.rows, h.members, h.head⟩
  | member g u row =>
    cases row with
    | none => exact hw.elim
    | some seat =>
      refine ⟨h.rows, fun k hk => ?_, h.head⟩
      have hget : (Store.apply (Write.member g u (some seat)) d).members.get k =
          if k = (g, u) then some seat else d.members.get k := Table.get_set _ _ _ _
      rw [hget]
      split
      · rfl
      · exact h.members k hk
  | log _ _ _ | groupSeq _ _ => exact hw.elim
  | _ => exact ⟨h.rows, h.members, h.head⟩

theorem extends_exec (hok : MarksOk s.db) : Extends s.db ((handler cfg r).exec s).2.db := by
  refine exec_inv (P := fun s' => Extends s.db s'.db) ?_
  have htame : ∀ w d, Tame w → Extends s.db d → Extends s.db (Store.apply w d) :=
    fun _ _ => Extends.tame
  have hrefl : Extends s.db s.db := .refl s.db
  cases r with
  | sendGroupSealed body caller env =>
    refine wlp_map (wlp_weaken (wlp_sendGroupSealed cfg body caller env hok) ?_ ?_)
    · exact fun s' hs' => by rw [hs']; exact hrefl
    · exact fun _ _ _ h => h.1.extends
  | sendGroupBroadcast body caller env =>
    refine wlp_map (wlp_weaken (wlp_sendGroupBroadcast cfg body caller env hok) ?_ ?_)
    · exact fun s' hs' => by rw [hs']; exact hrefl
    · exact fun _ _ _ h => h.1.extends
  | tick seconds => exact hrefl
  | _ => exact wlp_map (wlp_keeps htame (by simp [Tame.eq_def]) hrefl)

/-- Over a whole history the invariant holds and what is there stays. -/
theorem run_ok (hrun : Serial (handler cfg) MarksWhole s s') (hok : MarksOk s.db) :
    MarksOk s'.db ∧ Extends s.db s'.db := by
  refine hrun.inv (P := fun t => MarksOk t.db ∧ Extends s.db t.db) ⟨hok, .refl s.db⟩ ?_
  rintro t r ⟨hok, hext⟩ hcond
  exact ⟨marksOk_exec hok hcond, hext.trans (extends_exec hok)⟩

theorem marksOk_empty (users : Table Uin UserRow) (groups : Table GroupId GroupRow)
    (members : Table (GroupId × Uin) Unit) : MarksOk (.empty users groups members) where
  seated := fun g u D h => by simp [Db.empty] at h
  cursors := fun g u D c h => by simp [Db.empty] at h
  head := fun g => by simp [Db.head, Db.empty]
  rows := fun g seq row h => by simp [Db.empty] at h

/-! ## A withheld post -/

/-- The room that a request posts into. -/
def roomOf : Request → Option GroupId
  | .sendGroupSealed body _ _ => some body.groupId
  | .sendGroupBroadcast body _ _ => some body.groupId
  | _ => none

theorem mem_memberRows {v : Uin} (hv : v ∈ (db.memberRows g).map Prod.fst) :
    (db.members.get (g, v)).isSome := by
  simp only [Db.memberRows, Db.membersOf, map_map, mem_map, Function.comp_apply,
    Prod.exists, Table.mem_select, beq_iff_eq] at hv
  obtain ⟨g', v', row, ⟨hget, rfl⟩, rfl⟩ := hv
  rw [hget]
  rfl

theorem mem_recipientsOf {v : Uin} (hroom : roomOf r = some g)
    (hv : v ∈ recipientsOf db r) : (db.members.get (g, v)).isSome := by
  cases r with
  | sendGroupSealed body caller env =>
    cases hroom
    obtain ⟨e, he, rfl⟩ := mem_map.mp hv
    exact mem_memberRows (by simpa using (mem_filter.mp he).2)
  | sendGroupBroadcast body caller env =>
    cases hroom
    obtain ⟨x, hx, rfl⟩ := mem_map.mp hv
    exact mem_memberRows (mem_map.mpr ⟨x, (mem_filter.mp hx).1, rfl⟩)
  | _ => cases hroom

/-- A post that succeeds puts rows above the head, among them one for every account whose legacy
row it withholds. -/
theorem posted_exec (hok : MarksOk s.db) (hroom : roomOf r = some g)
    (hexec : (handler cfg r).exec s = (.ok a, s')) : Posted g s.db s'.db ∧
      ∀ v ∈ readersAmong s.db (recipientsOf s.db r), Arrived g v s.db s'.db := by
  have hres : ((handler cfg r).exec s).1 = .ok a := by rw [hexec]
  have hstate : ((handler cfg r).exec s).2 = s' := by rw [hexec]
  rw [← hstate]
  cases r with
  | sendGroupSealed body caller env =>
    cases hroom
    have hwlp := wlp_sendGroupSealed cfg body caller env hok
    exact ((exec_of_wlp (wlp_map (f := Answer.sent) hwlp)).1 a hres).choose_spec
  | sendGroupBroadcast body caller env =>
    cases hroom
    have hwlp := wlp_sendGroupBroadcast cfg body caller env hok
    exact ((exec_of_wlp (wlp_map (f := Answer.sent) hwlp)).1 a hres).choose_spec
  | _ => cases hroom

/-- A fetch of the room from the install's own position, perhaps among other rooms. -/
def AsksFor (body : GroupLogFetchIn) (g : GroupId) : Prop :=
  ∀ rooms ∈ body.rooms, (g, none) ∈ rooms ∧ ∀ x ∈ rooms, x.1 = g → x.2 = none

theorem AsksFor.wanted (h : AsksFor body g) (hmember : (db.members.get (g, u)).isSome) :
    (g, none) ∈ wantedOf db u body ∧ ∀ y ∈ wantedOf db u body, y.1 = g → y.2 = none := by
  unfold wantedOf wantedRooms
  have hroom : g ∈ db.roomsOf u := mem_roomsOf.mpr hmember
  cases hrooms : body.rooms with
  | none =>
    refine ⟨mem_map.mpr ⟨g, (mem_insertionSort _).mpr hroom, rfl⟩, fun y hy _ => ?_⟩
    obtain ⟨g', -, rfl⟩ := mem_map.mp hy
    rfl
  | some rooms =>
    obtain ⟨hmem, hall⟩ := h rooms hrooms
    refine ⟨mem_filter.mpr ⟨hmem, by simpa using hroom⟩, fun y hy => ?_⟩
    exact hall y (mem_filter.mp hy).1

/-- A fetch of a room serves a row beyond the install's position, or says that there is more. -/
theorem fetch_serves {seq : ℤ} {row : LogRow}
    (hmember : (s.db.members.get (g, u)).isSome) (hrow : s.db.groupLog.get (g, seq) = some row)
    (hvisible : Visible row u) (hhead : seq ≤ s.db.head g) (hpos : readFrom s.db u D g < seq)
    (hlimit : 0 < body.limit) (hasks : AsksFor body g) :
    ∃ out s', (fetchGroupLog u D body).exec s = (.ok out, s') ∧
      (⟨g, seq, row.envelopeType, row.cls, row.payload, row.receivedAt⟩ ∈ out.rows ∨
        out.more = true) := by
  obtain ⟨out, s', hexec, -, hfetched⟩ := exec_eq_ok (wlp_fetchGroupLog (s := s) hlimit)
  refine ⟨out, s', hexec, ?_⟩
  obtain ⟨hwanted, hnone⟩ := hasks.wanted hmember
  obtain ⟨y, hy, hyg, hstart⟩ := exists_start (D := D)
    (fun y hy hyg => by rw [hnone y hy hyg]; exact hpos.trans_le hhead) ⟨_, hwanted, rfl⟩
  rw [hnone y hy hyg] at hstart
  exact hfetched.served_or_more hstart (mem_visibleRows.mpr ⟨hrow, hpos, hvisible⟩)

section Decidable

instance (db : Db) (u : Uin) (D : DeviceId) (body : GroupLogFetchIn) :
    Decidable (Backlog db u D body) := by
  unfold Backlog
  infer_instance

instance (db : Db) (u : Uin) (D : DeviceId) (rooms : List GroupId) :
    Decidable (Complete db u D rooms) := by
  unfold Complete
  infer_instance

instance (db : Db) (u : Uin) (D : DeviceId) (rooms : List (GroupId × ℤ)) :
    Decidable (NothingNew db u D rooms) :=
  inferInstanceAs (Decidable (∀ x ∈ _, _))

instance : DecidableRel MarksWhole := by
  rintro s (_ | _) <;> unfold MarksWhole <;> infer_instance

end Decidable

/-- Account 7, alone in rooms 1 and 2, which it owns. -/
def twoRooms : State :=
  ⟨.empty ((∅ : Table Uin UserRow).set 7 (some ⟨some 0, true⟩))
    (((∅ : Table GroupId GroupRow).set 1 (some ⟨7, .all⟩)).set 2 (some ⟨7, .all⟩))
    (((∅ : Table (GroupId × Uin) Unit).set (1, 7) (some ())).set (2, 7) (some ())),
    .initial 1000, []⟩

/-- The state after install 1 of the account has fetched some rooms. -/
def afterFetch (rooms : Option (List (GroupId × Option ℤ))) : State :=
  serve (handler ⟨14, false⟩) twoRooms [.fetchGroupLog 7 1 ⟨rooms, 500⟩]

/-- A broadcast of account 7 into room 2. -/
def secondRoom : Request :=
  .sendGroupBroadcast ⟨2, .message, "hello"⟩ (some 7) ⟨none, none, none, [], [], []⟩

/-- The state after the fetch and the broadcast. -/
def afterPost (rooms : Option (List (GroupId × Option ℤ))) : State :=
  ((handler ⟨14, false⟩ secondRoom).exec (afterFetch rooms)).2

private theorem exec_secondRoom {rooms : Option (List (GroupId × Option ℤ))}
    (h : ((handler ⟨14, false⟩ secondRoom).exec (afterFetch rooms)).1 = .ok a) :
    (handler ⟨14, false⟩ secondRoom).exec (afterFetch rooms) = (.ok a, afterPost rooms) :=
  Prod.ext h rfl

end RcqServer.RoomLog
