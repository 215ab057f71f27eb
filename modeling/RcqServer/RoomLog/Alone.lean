import RcqServer.RoomLog.Pages

/-!
# Log fetches and acks, served alone

What one `fetch_group_log` and one `ack_group_log` do to the store and answer when nothing runs
beside them, as equations and relations between the store before and the store after.

A fetch reads every wanted room from `readFrom`, the cursor of the install, or the head if there is
none; `startsFor` are the rooms in which it is behind.  Beside its answer it leaves the cursors it
has created (`Seeded`) and, if the answer is empty, a reader mark.
-/

namespace RcqServer.RoomLog

open ReadCommitted Messages List Prog

variable {u : Uin} {D : DeviceId} {ws : List Write} {s : State} {db db' : Db}

/-! ## A fetch -/

/-- Where a fetch reads a room from. -/
def readFrom (db : Db) (u : Uin) (D : DeviceId) (g : GroupId) : ℤ :=
  match db.groupLogCursors.get (g, u, D) with
  | some c => c.lastSeq
  | none => max 0 (db.head g)

/-- One more room of a fetch: a room listed twice is read from its last position. -/
def addStart (db : Db) (u : Uin) (D : DeviceId) (starts : List (GroupId × ℤ))
    (x : GroupId × Option ℤ) : List (GroupId × ℤ) :=
  let start := x.2.getD (readFrom db u D x.1)
  let others := starts.filter fun y => y.1 ≠ x.1
  if start < db.head x.1 then others ++ [(x.1, start)] else others

/-- The rooms in which a fetch is behind, with the positions that it reads from. -/
def startsFor (db : Db) (u : Uin) (D : DeviceId) (wanted : List (GroupId × Option ℤ)) :
    List (GroupId × ℤ) :=
  wanted.foldl (addStart db u D) []

/-- The store `db'` has cursors for the install in `rooms`, and is `db` otherwise. -/
structure Seeded (u : Uin) (D : DeviceId) (rooms : List GroupId) (db db' : Db) : Prop where
  groupSeq : db'.groupSeq = db.groupSeq
  groupLog : db'.groupLog = db.groupLog
  members : db'.members = db.members
  readers : db'.groupLogReaders = db.groupLogReaders
  kept : ∀ k c, db.groupLogCursors.get k = some c → db'.groupLogCursors.get k = some c
  fresh : ∀ k, db.groupLogCursors.get k = none → db'.groupLogCursors.get k = none ∨
    ∃ g t, g ∈ rooms ∧ k = (g, u, D) ∧ db'.groupLogCursors.get k = some ⟨max 0 (db.head g), t⟩
  seated : ∀ g ∈ rooms, ∃ c, db'.groupLogCursors.get (g, u, D) = some c

theorem Seeded.refl (db : Db) : Seeded u D [] db db where
  groupSeq := rfl
  groupLog := rfl
  members := rfl
  readers := rfl
  kept := fun _ _ h => h
  fresh := fun _ h => .inl h
  seated := nofun

variable {g : GroupId} {rooms : List GroupId} {c : LogCursor}

theorem Seeded.head (h : Seeded u D rooms db db') (g : GroupId) : db'.head g = db.head g := by
  unfold Db.head
  rw [h.groupSeq]

theorem Seeded.visibleRows (h : Seeded u D rooms db db') (v : Uin)
    (g : GroupId) (start : ℤ) : db'.visibleRows v g start = db.visibleRows v g start := by
  unfold Db.visibleRows
  rw [h.groupLog]

theorem get_logCursor (g : GroupId) (row : Option LogCursor) (k : GroupId × Uin × DeviceId) :
    (Write.apply (.logCursor g u D row) db).groupLogCursors.get k =
      if k = (g, u, D) then row else db.groupLogCursors.get k :=
  Table.get_set db.groupLogCursors _ _ _

/-- A room in which the install has a cursor by now. -/
theorem Seeded.add_known (h : Seeded u D rooms db db')
    (hg : ∃ c, db'.groupLogCursors.get (g, u, D) = some c) : Seeded u D (rooms ++ [g]) db db' :=
  { h with
    fresh := by
      intro k hk
      refine (h.fresh k hk).imp_right ?_
      rintro ⟨g', t, hmem, hrest⟩
      exact ⟨g', t, mem_append_left _ hmem, hrest⟩
    seated := forall_mem_append.mpr ⟨h.seated, forall_mem_singleton.mpr hg⟩ }

/-- A room in which the install had no cursor, after the upsert. -/
theorem Seeded.add_new (h : Seeded u D rooms db db')
    {t : Time} (hg : db'.groupLogCursors.get (g, u, D) = none) : Seeded u D (rooms ++ [g]) db
      (Write.apply (.logCursor g u D (some (.upsert none 0 (db'.head g) t))) db') := by
  have hget : ∀ k, (Write.apply (.logCursor g u D (some (.upsert none 0 (db'.head g) t)))
      db').groupLogCursors.get k = if k = (g, u, D) then some ⟨max 0 (db.head g), t⟩ else
        db'.groupLogCursors.get k := by
    intro k
    rw [← h.head g, get_logCursor]
    rfl
  have hnone : db.groupLogCursors.get (g, u, D) = none := by
    cases hold : db.groupLogCursors.get (g, u, D) with
    | none => rfl
    | some c =>
      rw [h.kept _ c hold] at hg
      cases hg
  refine ⟨h.groupSeq, h.groupLog, h.members, h.readers, fun k c hk => ?_, fun k hk => ?_,
    fun g' hmem => ?_⟩
  · rw [hget, if_neg]
    · exact h.kept k c hk
    · rintro rfl
      rw [hnone] at hk
      cases hk
  · rw [hget]
    split
    · exact .inr ⟨g, t, by simp, ‹_›, rfl⟩
    · refine (h.fresh k hk).imp_right ?_
      rintro ⟨g', t, hmem, hrest⟩
      exact ⟨g', t, mem_append_left _ hmem, hrest⟩
  · rw [hget]
    split
    · exact ⟨_, rfl⟩
    · rename_i hne
      rcases mem_append.mp hmem with hold | hnew
      · exact h.seated g' hold
      · obtain rfl := mem_singleton.mp hnew
        exact absurd rfl hne

/-- A cursor of the install in one of the rooms is where the fetch reads from. -/
theorem Seeded.lastSeq (h : Seeded u D rooms db db') (hc : db'.groupLogCursors.get (g, u, D) = some c) :
    c.lastSeq = readFrom db u D g := by
  unfold readFrom
  cases hold : db.groupLogCursors.get (g, u, D) with
  | some old =>
    rw [h.kept _ old hold] at hc
    cases hc
    rfl
  | none =>
    rcases h.fresh _ hold with hnone | ⟨g', t, -, hk, hsome⟩
    · rw [hnone] at hc
      cases hc
    · cases hk
      rw [hsome] at hc
      cases hc
      rfl

/-! ### The dictionary of positions -/

private theorem lookup_eq_of_mem_iff {d : List (GroupId × ℤ)} {v? : Option ℤ}
    (h : ∀ v, (g, v) ∈ d ↔ v? = some v) : d.lookup g = v? := by
  cases hlookup : d.lookup g with
  | none =>
    rw [lookup_eq_none_iff] at hlookup
    cases v? with
    | none => rfl
    | some v =>
      have := hlookup (g, v) ((h v).mpr rfl)
      simp at this
  | some v =>
    obtain ⟨before, after, rfl, -⟩ := lookup_eq_some_iff.mp hlookup
    exact ((h v).mp (by simp)).symm

/-- The dictionary that a request starts from holds the cursors of the rooms it is about. -/
theorem lookup_logPositions {gids : List GroupId} (hg : g ∈ gids) :
    (db.logPositions u D gids).lookup g =
      (db.groupLogCursors.get (g, u, D)).map LogCursor.lastSeq := by
  refine lookup_eq_of_mem_iff fun v => ?_
  simp only [Db.logPositions, mem_map, Prod.exists, Prod.mk.injEq, Table.mem_select,
    Bool.and_eq_true, beq_iff_eq, decide_eq_true_eq, Option.map_eq_some_iff]
  constructor
  · rintro ⟨g', u', D', c, ⟨hget, ⟨rfl, rfl⟩, -⟩, rfl, rfl⟩
    exact ⟨c, hget, rfl⟩
  · rintro ⟨c, hget, rfl⟩
    exact ⟨g, u, D, c, ⟨hget, ⟨rfl, rfl⟩, hg⟩, rfl, rfl⟩

private theorem lookup_map_assign (d : List (GroupId × ℤ)) (g g' : GroupId) (v : ℤ) :
    (d.map fun r => if r.1 = g then (g, v) else r).lookup g' =
      if g' = g then (d.lookup g').map fun _ => v else d.lookup g' := by
  induction d with
  | nil => simp
  | cons r d ih =>
    obtain ⟨k, x⟩ := r
    rw [map_cons]
    by_cases hk : k = g
    · subst hk
      rw [if_pos rfl]
      by_cases hg : g' = k
      · subst hg
        simp
      · have hbeq : (g' == k) = false := beq_false_of_ne hg
        simpa [lookup_cons, hg, hbeq] using ih
    · rw [if_neg hk]
      by_cases hg : g' = k
      · subst hg
        simp [hk]
      · have hbeq : (g' == k) = false := beq_false_of_ne hg
        simpa [lookup_cons, hbeq] using ih

/-- Dictionary assignment. -/
theorem lookup_assign (d : List (GroupId × ℤ)) (g g' : GroupId) (v : ℤ) :
    (assign d g v).lookup g' = if g' = g then some v else d.lookup g' := by
  unfold assign
  split
  · rename_i hany
    rw [lookup_map_assign]
    by_cases hg : g' = g
    · subst hg
      obtain ⟨r, hr, heq⟩ := any_eq_true.mp hany
      rw [if_pos rfl, if_pos rfl]
      cases hlookup : d.lookup g' with
      | none =>
        have := lookup_eq_none_iff.mp hlookup r hr
        simp_all
      | some x => rfl
    · rw [if_neg hg, if_neg hg]
  · rename_i hany
    rw [lookup_append]
    by_cases hg : g' = g
    · subst hg
      have hnone : d.lookup g' = none := by
        refine lookup_eq_none_iff.mpr fun r hr => ?_
        by_contra hne
        have heq : g' = r.1 := by simpa using hne
        exact hany (any_eq_true.mpr ⟨r, hr, beq_iff_eq.mpr heq.symm⟩)
      simp [hnone]
    · have hbeq : (g' == g) = false := beq_false_of_ne hg
      simp [lookup_cons, hg, hbeq]

/-- The dictionary holds the cursors of these rooms, as the transaction sees them. -/
def Knows (d : List (GroupId × ℤ)) (u : Uin) (D : DeviceId) (rooms : List GroupId) (db : Db) :
    Prop :=
  ∀ g ∈ rooms, d.lookup g = (db.groupLogCursors.get (g, u, D)).map LogCursor.lastSeq

/-- The dictionary is assigned what the cursor is set to. -/
theorem Knows.assign {d : List (GroupId × ℤ)} (h : Knows d u D rooms db) (g : GroupId)
    (c : LogCursor) : Knows (Messages.assign d g c.lastSeq) u D rooms
      (Write.apply (.logCursor g u D (some c)) db) := by
  intro g' hg'
  rw [lookup_assign, get_logCursor]
  by_cases heq : g' = g
  · rw [if_pos heq, if_pos (by rw [heq])]
    rfl
  · rw [if_neg heq, if_neg (by simp [heq])]
    exact h g' hg'

theorem wlp_upsertLogCursor {R : State → Prop} {Q : ℤ × Bool → List Write → State → Prop} {seq seed : ℤ} :
    (upsertLogCursor g u D seq seed).wlp R Q ws s ↔
      Q ((LogCursor.upsert ((s.view ws).groupLogCursors.get (g, u, D)) seq seed s.ext.now).lastSeq,
          ((s.view ws).groupLogCursors.get (g, u, D)).isNone) (ws ++ [.logCursor g u D (some
          (.upsert ((s.view ws).groupLogCursors.get (g, u, D)) seq seed s.ext.now))]) s := by
  unfold upsertLogCursor
  rw [bind_eq, wlp_bind, clock, wlp_read, wlp_write]

theorem view_concat (w : Write) : s.view (ws ++ [w]) = Write.apply w (s.view ws) :=
  applyAll_concat ws w s.db

/-! ### The loop over the rooms -/

private theorem cursors_add (scan : RoomScan) (g : GroupId) (after : Option ℤ) (head pos : ℤ)
    (isNew : Bool) : (scan.add g after head pos isNew).cursors = assign scan.cursors g pos := rfl

private theorem starts_add (scan : RoomScan) (g : GroupId) (after : Option ℤ) (head pos : ℤ)
    (isNew : Bool) : (scan.add g after head pos isNew).starts =
      if after.getD pos < head then (scan.starts.filter fun y => y.1 ≠ g) ++ [(g, after.getD pos)]
      else scan.starts.filter fun y => y.1 ≠ g := rfl

private theorem wlp_scanRoom {scan : RoomScan} {done rest : List GroupId}
    {after : Option ℤ} (hseeded : Seeded u D done s.db (s.view ws))
    (hknows : Knows scan.cursors u D (g :: rest) (s.view ws)) :
    (scanRoom u D scan g after).wlp (fun _ => False)
      (fun scan' ws' s' => s' = s ∧ Seeded u D (done ++ [g]) s.db (s.view ws') ∧
        Knows scan'.cursors u D rest (s.view ws') ∧
        scan'.starts = addStart s.db u D scan.starts (g, after)) ws s := by
  have hhead : (s.view ws).head g = s.db.head g := hseeded.head g
  refine wlp_read_bind ?_
  rw [hhead]
  have hg := hknows g mem_cons_self
  cases hlookup : scan.cursors.lookup g with
  | some pos =>
    rw [hlookup] at hg
    obtain ⟨c, hc, rfl⟩ := Option.map_eq_some_iff.mp hg.symm
    refine ⟨rfl, hseeded.add_known ⟨c, hc⟩, fun g' hg' => ?_, ?_⟩
    · rw [cursors_add, lookup_assign]
      split
      · rename_i heq
        rw [heq, hc]
        rfl
      · exact hknows g' (mem_cons_of_mem _ hg')
    · rw [starts_add, addStart, ← hseeded.lastSeq hc]
  | none =>
    rw [hlookup] at hg
    have hnone : (s.view ws).groupLogCursors.get (g, u, D) = none :=
      Option.map_eq_none_iff.mp hg.symm
    refine wlp_bind.mpr (wlp_upsertLogCursor.mpr ?_)
    rw [hnone]
    have hnew := hseeded.add_new (t := s.ext.now) hnone
    rw [← view_concat, hhead] at hnew
    refine ⟨rfl, hnew, ?_, ?_⟩
    · rw [cursors_add, view_concat]
      exact Knows.assign (fun g' hg' => hknows g' (mem_cons_of_mem _ hg')) g _
    · obtain ⟨c, hc⟩ := hnew.seated g (by simp)
      have hpos := hnew.lastSeq hc
      rw [view_concat, get_logCursor, if_pos rfl] at hc
      cases hc
      rw [starts_add, addStart, ← hpos]

theorem wlp_scanRooms {scan : RoomScan} {done : List GroupId} {wanted : List (GroupId × Option ℤ)}
    (hseeded : Seeded u D done s.db (s.view ws))
    (hknows : Knows scan.cursors u D (wanted.map Prod.fst) (s.view ws)) :
    (scanRooms u D wanted scan).wlp (fun _ => False)
      (fun scan' ws' s' => s' = s ∧ Seeded u D (done ++ wanted.map Prod.fst) s.db (s.view ws') ∧
        scan'.starts = wanted.foldl (addStart s.db u D) scan.starts) ws s := by
  induction wanted generalizing scan done ws with
  | nil => exact ⟨rfl, by simpa using hseeded, rfl⟩
  | cons room rest ih =>
    obtain ⟨g, after⟩ := room
    refine wlp_seq (wlp_scanRoom hseeded hknows) ?_
    rintro scan' ws' s' ⟨rfl, hseeded', hknows', hstarts⟩
    refine wlp_mono (ih hseeded' hknows') ?_
    rintro scan'' ws'' s'' ⟨rfl, hseeded'', hstarts'⟩
    refine ⟨rfl, by simpa using hseeded'', ?_⟩
    rw [hstarts', hstarts, foldl_cons]

theorem Seeded.fullPage (h : Seeded u D rooms db db') (starts : List (GroupId × ℤ)) (limit : ℕ) :
    RoomLog.fullPage db' u starts limit = RoomLog.fullPage db u starts limit := by
  simp only [RoomLog.fullPage, wholeStart, h.visibleRows]

/-- The rooms that a fetch is about. -/
def wantedOf (db : Db) (u : Uin) (body : GroupLogFetchIn) : List (GroupId × Option ℤ) :=
  wantedRooms body.rooms (db.roomsOf u)

/-- The page that a fetch answers with. -/
def pageOf (db : Db) (u : Uin) (D : DeviceId) (body : GroupLogFetchIn) : Page :=
  fullPage db u (startsFor db u D (wantedOf db u body)) body.limit

def rowsOf (page : Page) : List GroupLogRow :=
  servedRows (page.rooms.map fun room => (room.gid, room.picked))

/-- The store has the reader mark of an install on top of `db`. -/
def Marked (u : Uin) (D : DeviceId) (db db' : Db) : Prop :=
  ∃ mark, db' = Write.apply (.reader u D (some mark)) db

/-- What a fetch that is served alone answers and leaves behind. -/
structure Fetched (u : Uin) (D : DeviceId) (body : GroupLogFetchIn) (s : State)
    (out : GroupLogFetchOut) (s' : State) : Prop where
  rows : out.rows = rowsOf (pageOf s.db u D body)
  more : (∃ room ∈ (pageOf s.db u D body).rooms, room.buf ≠ []) → out.more = true
  db : ∃ db', Seeded u D ((wantedOf s.db u body).map Prod.fst) s.db db' ∧
    (s'.db = db' ∨ out.rows = [] ∧ Marked u D db' s'.db)
  handed : s'.ext.logHanded =
    out.rows.map (fun r => ⟨u, D, r.gid, r.seq, r.payload⟩) ++ s.ext.logHanded

theorem wlp_fetchGroupLog {body : GroupLogFetchIn} (hlimit : 0 < body.limit) :
    (fetchGroupLog u D body).wlp (fun _ => False) (fun out _ s' => Fetched u D body s out s')
      [] s := by
  refine wlp_read_bind ?_
  refine wlp_read_bind ?_
  have hknows : Knows (s.db.logPositions u D ((wantedOf s.db u body).map Prod.fst)) u D
      ((wantedOf s.db u body).map Prod.fst) s.db := fun g hg => lookup_logPositions hg
  refine wlp_seq (wlp_scanRooms (.refl s.db) hknows) ?_
  rintro scan ws s' ⟨rfl, hseeded, hstarts⟩
  rw [nil_append] at hseeded
  refine wlp_seq (wlp_fairLogPage hlimit) ?_
  rintro page ws' s' ⟨⟨rfl, rfl⟩, hpicked, hmore⟩
  have hpage : RoomLog.fullPage (s'.view ws') u scan.starts body.limit = pageOf s'.db u D body := by
    rw [hstarts, hseeded.fullPage]
    rfl
  rw [hpage] at hpicked hmore
  have hrows : servedRows page.1 = rowsOf (pageOf s'.db u D body) := by
    rw [hpicked]
    rfl
  dsimp only
  by_cases hempty : servedRows page.1 = []
  · rw [onlyIf, if_pos hempty]
    refine wlp_bind.mpr ?_
    unfold markReader
    rw [bind_eq, wlp_bind, clock, wlp_read, wlp_write]
    exact ⟨hrows, hmore, ⟨_, hseeded, .inr ⟨hempty, _, view_concat _⟩⟩, rfl⟩
  · rw [onlyIf, if_neg hempty]
    exact ⟨hrows, hmore, ⟨_, hseeded, .inl rfl⟩, rfl⟩

/-- A room that is behind whatever listing of it counts is among the rooms that are read. -/
theorem exists_start {wanted : List (GroupId × Option ℤ)}
    (hbehind : ∀ y ∈ wanted, y.1 = g → y.2.getD (readFrom db u D g) < db.head g)
    (hg : ∃ y ∈ wanted, y.1 = g) :
    ∃ y ∈ wanted, y.1 = g ∧ (g, y.2.getD (readFrom db u D g)) ∈ startsFor db u D wanted := by
  induction wanted using reverseRecOn with
  | nil =>
    obtain ⟨y, hy, -⟩ := hg
    cases hy
  | append_singleton l x ih =>
    have hfold : startsFor db u D (l ++ [x]) = addStart db u D (startsFor db u D l) x := by
      simp [startsFor]
    rw [hfold]
    by_cases hx : x.1 = g
    · have hlt := hbehind x (by simp) hx
      refine ⟨x, by simp, hx, ?_⟩
      subst hx
      simp [addStart, hlt]
    · obtain ⟨y, hy, hyg, hmem⟩ := ih (fun y hy => hbehind y (mem_append_left _ hy)) <| by
        obtain ⟨y, hy, hyg⟩ := hg
        rcases mem_append.mp hy with hold | hnew
        · exact ⟨y, hold, hyg⟩
        · obtain rfl := mem_singleton.mp hnew
          exact absurd hyg hx
      refine ⟨y, mem_append_left _ hy, hyg, ?_⟩
      have hothers : (g, y.2.getD (readFrom db u D g)) ∈
          (startsFor db u D l).filter fun z => z.1 ≠ x.1 :=
        mem_filter.mpr ⟨hmem, by simpa using fun h => hx h.symm⟩
      unfold addStart
      dsimp only
      split
      · exact mem_append_left _ hothers
      · exact hothers

section Fetched

variable {body : GroupLogFetchIn} {s' : State} {out : GroupLogFetchOut}

theorem mem_rowsOf {page : Page} {room : Room} {row : ℤ × LogRow} (hroom : room ∈ page.rooms)
    (hrow : row ∈ room.picked) :
    ⟨room.gid, row.1, row.2.envelopeType, row.2.cls, row.2.payload, row.2.receivedAt⟩ ∈
      rowsOf page := by
  rw [rowsOf, servedRows, mem_flatMap]
  refine ⟨(room.gid, room.picked), mem_map.mpr ⟨room, hroom, rfl⟩, ?_⟩
  exact mem_map.mpr ⟨row, hrow, rfl⟩

/-- A row beyond the position that a room is read from is served, or the answer says that there
is more. -/
theorem Fetched.served_or_more (h : Fetched u D body s out s') {g : GroupId} {start seq : ℤ}
    {row : LogRow} (hstart : (g, start) ∈ startsFor s.db u D (wantedOf s.db u body))
    (hrow : (seq, row) ∈ s.db.visibleRows u g start) :
    ⟨g, seq, row.envelopeType, row.cls, row.payload, row.receivedAt⟩ ∈ out.rows ∨
      out.more = true := by
  have hcontents : (g, s.db.visibleRows u g start) ∈ (pageOf s.db u D body).rooms.map contents := by
    rw [pageOf, contents_fullPage]
    exact mem_map.mpr ⟨(g, start), hstart, rfl⟩
  obtain ⟨room, hroom, heq⟩ := mem_map.mp hcontents
  obtain ⟨hgid, hrows⟩ := Prod.mk.inj heq
  rw [← hrows, mem_append] at hrow
  rcases hrow with hpicked | hleft
  · rw [h.rows, ← hgid]
    exact .inl (mem_rowsOf hroom hpicked)
  · exact .inr (h.more ⟨room, hroom, ne_nil_of_mem hleft⟩)

/-- An answer is empty only if no room that is read has a row to serve. -/
theorem Fetched.rows_ne_nil (h : Fetched u D body s out s') (hlimit : 0 < body.limit)
    {x : GroupId × ℤ} (hstart : x ∈ startsFor s.db u D (wantedOf s.db u body))
    (hrows : s.db.visibleRows u x.1 x.2 ≠ []) : out.rows ≠ [] := by
  obtain ⟨room, hroom, hpicked⟩ := exists_picked_fullPage hlimit hstart hrows
  obtain ⟨row, hrow⟩ := exists_mem_of_ne_nil _ hpicked
  rw [h.rows]
  exact ne_nil_of_mem (mem_rowsOf hroom hrow)

end Fetched

/-! ## An ack -/

/-- The store after the install has moved its cursors to the sequences in `rooms`, none of them
backwards. -/
structure Acked (u : Uin) (D : DeviceId) (rooms : List (GroupId × ℤ)) (db db' : Db) : Prop where
  groupSeq : db'.groupSeq = db.groupSeq
  groupLog : db'.groupLog = db.groupLog
  members : db'.members = db.members
  readers : db'.groupLogReaders = db.groupLogReaders
  kept : ∀ k c, db.groupLogCursors.get k = some c →
    ∃ c', db'.groupLogCursors.get k = some c' ∧ c.lastSeq ≤ c'.lastSeq
  reached : ∀ x ∈ rooms, ∃ c, db'.groupLogCursors.get (x.1, u, D) = some c ∧ x.2 ≤ c.lastSeq
  source : ∀ k c', db'.groupLogCursors.get k = some c' →
    (∃ c, db.groupLogCursors.get k = some c ∧ c.lastSeq = c'.lastSeq) ∨
      ∃ x ∈ rooms, k = (x.1, u, D) ∧ c'.lastSeq = x.2

theorem Acked.refl (db : Db) : Acked u D [] db db where
  groupSeq := rfl
  groupLog := rfl
  members := rfl
  readers := rfl
  kept := fun _ c h => ⟨c, h, le_rfl⟩
  reached := nofun
  source := fun _ c' h => .inl ⟨c', h, rfl⟩

/-- More rooms, whose cursors are there already. -/
theorem Acked.more {rooms rooms' : List (GroupId × ℤ)} (h : Acked u D rooms db db')
    (hsub : rooms ⊆ rooms') (hreached : ∀ x ∈ rooms',
      ∃ c, db'.groupLogCursors.get (x.1, u, D) = some c ∧ x.2 ≤ c.lastSeq) :
    Acked u D rooms' db db' := by
  refine { h with reached := hreached, source := fun k c' hk => (h.source k c' hk).imp_right ?_ }
  rintro ⟨x, hx, hrest⟩
  exact ⟨x, hsub hx, hrest⟩

theorem lastSeq_upsert (old : Option LogCursor) (upto : ℤ) (now : Time) :
    (LogCursor.upsert old upto upto now).lastSeq = upto ∨ ∃ c, old = some c ∧ upto ≤ c.lastSeq ∧
        (LogCursor.upsert old upto upto now).lastSeq = c.lastSeq := by
  cases old with
  | none => exact .inl (max_self upto)
  | some c =>
    rcases le_total upto c.lastSeq with hle | hle
    · exact .inr ⟨c, rfl, hle, max_eq_left hle⟩
    · exact .inl (max_eq_right hle)

theorem le_lastSeq_upsert {old : Option LogCursor} {upto : ℤ} {now : Time}
    (hold : old = some c) : c.lastSeq ≤ (LogCursor.upsert old upto upto now).lastSeq := by
  subst hold
  exact le_max_left _ _

/-- A room whose cursor moves. -/
theorem Acked.add_moved {rooms : List (GroupId × ℤ)} (h : Acked u D rooms db db')
    (x : GroupId × ℤ) (now : Time) :
    Acked u D (rooms ++ [x]) db (Write.apply (.logCursor x.1 u D (some
      (.upsert (db'.groupLogCursors.get (x.1, u, D)) x.2 x.2 now))) db') := by
  set old := db'.groupLogCursors.get (x.1, u, D) with hold
  set new := LogCursor.upsert old x.2 x.2 now with hnew
  have hx : x.2 ≤ new.lastSeq := by
    rcases lastSeq_upsert old x.2 now with heq | ⟨c, -, hle, heq⟩
    · exact heq.ge
    · exact hle.trans heq.ge
  have hgrows : ∀ k c, db'.groupLogCursors.get k = some c → ∃ c',
      (if k = (x.1, u, D) then some new else db'.groupLogCursors.get k) = some c' ∧
        c.lastSeq ≤ c'.lastSeq := by
    intro k c hc
    split
    · rename_i hk
      subst hk
      exact ⟨new, rfl, le_lastSeq_upsert (hold.trans hc)⟩
    · exact ⟨c, hc, le_rfl⟩
  refine ⟨h.groupSeq, h.groupLog, h.members, h.readers, fun k c hk => ?_, fun y hy => ?_,
    fun k c' hk => ?_⟩
  · obtain ⟨c₁, hc₁, hle₁⟩ := h.kept k c hk
    obtain ⟨c₂, hc₂, hle₂⟩ := hgrows k c₁ hc₁
    rw [get_logCursor]
    exact ⟨c₂, hc₂, hle₁.trans hle₂⟩
  · rw [get_logCursor]
    rcases mem_append.mp hy with hin | hin
    · obtain ⟨c₁, hc₁, hle₁⟩ := h.reached y hin
      obtain ⟨c₂, hc₂, hle₂⟩ := hgrows _ c₁ hc₁
      exact ⟨c₂, hc₂, hle₁.trans hle₂⟩
    · obtain rfl := mem_singleton.mp hin
      exact ⟨new, if_pos rfl, hx⟩
  · have hsource : ∀ c, db'.groupLogCursors.get k = some c → c.lastSeq = c'.lastSeq →
        (∃ c, db.groupLogCursors.get k = some c ∧ c.lastSeq = c'.lastSeq) ∨
          ∃ y ∈ rooms ++ [x], k = (y.1, u, D) ∧ c'.lastSeq = y.2 := by
      intro c hc heq
      rcases h.source k c hc with ⟨c₀, hc₀, heq₀⟩ | ⟨y, hy, hk, heq₀⟩
      · exact .inl ⟨c₀, hc₀, heq₀.trans heq⟩
      · exact .inr ⟨y, mem_append_left _ hy, hk, heq.symm.trans heq₀⟩
    rw [get_logCursor] at hk
    split at hk
    · rename_i hkey
      cases hk
      rcases lastSeq_upsert old x.2 now with heq | ⟨c, hc, -, heq⟩
      · exact .inr ⟨x, by simp, hkey, heq⟩
      · subst hkey
        exact hsource c (hold.symm.trans hc) heq.symm
    · exact hsource c' hk rfl

/-- The install's cursors are at or beyond all of these sequences. -/
def NothingNew (db : Db) (u : Uin) (D : DeviceId) (rooms : List (GroupId × ℤ)) : Prop :=
  ∀ x ∈ rooms, ∃ c, db.groupLogCursors.get (x.1, u, D) = some c ∧ x.2 ≤ c.lastSeq

theorem wlp_ackRooms {done rooms : List (GroupId × ℤ)} {known : List (GroupId × ℤ)} {moved : ℕ}
    (hacked : Acked u D done s.db (s.view ws))
    (hknows : Knows known u D (rooms.map Prod.fst) (s.view ws)) :
    (ackRooms u D rooms known moved).wlp (fun _ => False)
      (fun moved' ws' s' => s' = s ∧ Acked u D (done ++ rooms) s.db (s.view ws') ∧
        (NothingNew (s.view ws) u D rooms → moved' = moved)) ws s := by
  induction rooms generalizing done known moved ws with
  | nil => exact ⟨rfl, by simpa using hacked, fun _ => rfl⟩
  | cons x rest ih =>
    obtain ⟨g, upto⟩ := x
    have hg : known.lookup g =
        ((s.view ws).groupLogCursors.get (g, u, D)).map LogCursor.lastSeq :=
      hknows g mem_cons_self
    have hrest : Knows known u D (rest.map Prod.fst) (s.view ws) :=
      fun g' hg' => hknows g' (mem_cons_of_mem _ hg')
    unfold ackRooms
    split
    · rename_i hskip
      rw [hg] at hskip
      obtain ⟨pos, hpos, hle⟩ := (Option.any_eq_true _ _).mp hskip
      obtain ⟨c, hc, rfl⟩ := Option.map_eq_some_iff.mp hpos
      have hadd : Acked u D (done ++ [(g, upto)]) s.db (s.view ws) :=
        hacked.more (subset_append_left _ _) (forall_mem_append.mpr
          ⟨hacked.reached, forall_mem_singleton.mpr ⟨c, hc, of_decide_eq_true hle⟩⟩)
      refine wlp_mono (ih hadd hrest) ?_
      rintro moved' ws' s' ⟨rfl, hacked', hmoved⟩
      exact ⟨rfl, by simpa using hacked',
        fun hnothing => hmoved fun x hx => hnothing x (mem_cons_of_mem _ hx)⟩
    · rename_i hmove
      refine wlp_bind.mpr (wlp_upsertLogCursor.mpr ?_)
      have hadd := hacked.add_moved (g, upto) s.ext.now
      rw [← view_concat] at hadd
      refine wlp_mono (ih hadd ?_) ?_
      · rw [view_concat]
        exact hrest.assign g _
      · rintro moved' ws' s' ⟨rfl, hacked', -⟩
        refine ⟨rfl, by simpa using hacked', fun hnothing => absurd ?_ hmove⟩
        obtain ⟨c, hc, hle⟩ := hnothing (g, upto) mem_cons_self
        rw [hg, hc]
        simpa using hle

/-- What an ack that is served alone leaves behind. -/
theorem wlp_ackGroupLog {rooms : List (GroupId × ℤ)} : (ackGroupLog u D rooms).wlp (fun _ => False)
      (fun _ _ s' => s'.ext = s.ext ∧ ∃ db', Acked u D rooms s.db db' ∧
        (s'.db = db' ∨ ¬NothingNew s.db u D rooms ∧ Marked u D db' s'.db)) [] s := by
  have hsorted : ∀ x, x ∈ rooms.insertionSort (fun a b => a.1 ≤ b.1) ↔ x ∈ rooms :=
    fun x => mem_insertionSort _
  refine wlp_read_bind ?_
  have hknows : Knows (s.db.logPositions u D (rooms.map Prod.fst)) u D
      ((rooms.insertionSort fun a b => a.1 ≤ b.1).map Prod.fst) s.db := by
    intro g hg
    refine lookup_logPositions ?_
    obtain ⟨x, hx, rfl⟩ := mem_map.mp hg
    exact mem_map.mpr ⟨x, (hsorted x).mp hx, rfl⟩
  refine wlp_seq (wlp_ackRooms (.refl s.db) hknows) ?_
  rintro moved ws s' ⟨rfl, hacked, hmoved⟩
  have hacked' : Acked u D rooms s'.db (s'.view ws) :=
    hacked.more (fun x => (hsorted x).mp) fun x hx => hacked.reached x ((hsorted x).mpr hx)
  by_cases hzero : moved = 0
  · rw [onlyIf, if_neg (by simpa using hzero)]
    exact ⟨rfl, _, hacked', .inl rfl⟩
  · rw [onlyIf, if_pos hzero]
    have hnew : ¬NothingNew s'.db u D rooms :=
      fun hnothing => hzero (hmoved fun x hx => hnothing x ((hsorted x).mp hx))
    refine wlp_bind.mpr ?_
    unfold markReader
    rw [bind_eq, wlp_bind, clock, wlp_read, wlp_write]
    exact ⟨rfl, _, hacked', .inr ⟨hnew, _, view_concat _⟩⟩

end RcqServer.RoomLog
