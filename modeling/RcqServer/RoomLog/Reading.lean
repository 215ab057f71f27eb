import RcqServer.RoomLog.Posting

/-!
# Fetches, acks and joins keep the log covered

What a reader has pending is a list of cursors, each at a covered position.  A fetch also has in
hand the rows it is going to serve, which are committed rows; a fetch or a join that has created
cursors has in hand the heads they start at, and both go out with the commit.
-/

namespace RcqServer.RoomLog

open ReadCommitted Messages Outline List

variable {r : Request} {s s' : State} {g : GroupId} {u : Uin} {D : DeviceId} {ws new : List Write}
  {e : Ext} {seeds seeds' : Seeds}

structure Reading (seeds : Seeds) (ws : List Write) (s : State) : Prop where
  seqs : ∀ g next, Write.groupSeq g next ∉ ws
  logs : ∀ g seq row, Write.log g seq row ∉ ws
  cursors : ∀ g u D row, Write.logCursor g u D row ∈ ws →
    ∃ c, row = some c ∧ Covered seeds s g u D c.lastSeq

theorem Reading.nil (seeds : Seeds) (s : State) : Reading seeds [] s :=
  ⟨nofun, nofun, nofun⟩

theorem Reading.mono (h : Reading seeds ws s) (hgrows : Grows s s') : Reading seeds ws s' := by
  refine ⟨h.seqs, h.logs, fun g u D row hrow => ?_⟩
  obtain ⟨c, hc, hcovered⟩ := h.cursors g u D row hrow
  exact ⟨c, hc, hcovered.mono hgrows⟩

theorem Reading.weaken (h : Reading seeds ws s) (hsub : ∀ x ∈ seeds, x ∈ seeds') :
    Reading seeds' ws s := by
  refine ⟨h.seqs, h.logs, fun g u D row hrow => ?_⟩
  obtain ⟨c, hc, hcovered⟩ := h.cursors g u D row hrow
  exact ⟨c, hc, hcovered.weaken hsub⟩

theorem Reading.append_foreign (h : Reading seeds ws s) (hnew : ∀ w ∈ new, Foreign w) :
    Reading seeds (ws ++ new) s where
  seqs := fun g next hmem => (mem_append.mp hmem).elim (h.seqs g next) (hnew _)
  logs := fun g seq row hmem => (mem_append.mp hmem).elim (h.logs g seq row) (hnew _)
  cursors := fun g u D row hmem =>
    (mem_append.mp hmem).elim (h.cursors g u D row) fun hin => (hnew _ hin).elim

theorem Reading.append_cursor (h : Reading seeds ws s) {c : LogCursor}
    (hc : Covered seeds s g u D c.lastSeq) :
    Reading seeds (ws ++ [.logCursor g u D (some c)]) s where
  seqs := fun g' next hmem => (mem_append.mp hmem).elim (h.seqs g' next) (by simp)
  logs := fun g' seq row hmem => (mem_append.mp hmem).elim (h.logs g' seq row) (by simp)
  cursors := by
    intro g' u' D' row hmem
    rcases mem_append.mp hmem with hold | hin
    · exact h.cursors g' u' D' row hold
    · cases mem_singleton.mp hin
      exact ⟨c, rfl, hc⟩

theorem Reading.head_view (h : Reading seeds ws s) (g : GroupId) :
    (s.view ws).head g = s.db.head g :=
  congrArg (Option.getD · 0) (sets_groupSeq.get_applyAll_of_notMem (h.seqs g) s.db)

theorem Reading.log_view (h : Reading seeds ws s) (g : GroupId) (seq : ℤ) :
    (s.view ws).groupLog.get (g, seq) = s.db.groupLog.get (g, seq) :=
  sets_groupLog.get_applyAll_of_notMem (k := (g, seq)) (fun row => h.logs g seq row) s.db

/-- A reader sees cursors at covered positions only. -/
theorem Reading.covered_view (h : Reading seeds ws s) (hinv : Inv s) {c : LogCursor}
    (hc : (s.view ws).groupLogCursors.get (g, u, D) = some c) :
    Covered seeds s g u D c.lastSeq := by
  rcases sets_groupLogCursors.get_applyAll ws s.db (g, u, D) with hsame | hmem
  · exact (hinv.cursors g u D c (hsame.symm.trans hc)).weaken nofun
  · rw [show (applyAll ws s.db).groupLogCursors.get (g, u, D) = some c from hc] at hmem
    obtain ⟨c', heq, hcovered⟩ := h.cursors g u D _ hmem
    cases heq
    exact hcovered

/-! ## The commit of a reader -/

/-- Committing a reader's cursors keeps the invariant, if the commit records its starts and hands
out committed rows only. -/
theorem Reading.step_commit (h : Reading seeds ws s) (hinv : Inv s)
    (hhanded : ∀ event ∈ s.ext.logHanded, event ∈ e.logHanded)
    (hseeded : ∀ x ∈ seeds ++ s.ext.seeded, x ∈ e.seeded)
    (hnew : ∀ event ∈ e.logHanded, event ∈ s.ext.logHanded ∨
      ∃ row, s.db.groupLog.get (event.gid, event.seq) = some row ∧ row.payload = event.payload)
    (r : Request) {l : Label} : outline.Step r l ws s (s.commit ws e) := by
  have hlog : ∀ g seq, (s.commit ws e).db.groupLog.get (g, seq) = s.db.groupLog.get (g, seq) :=
    h.log_view
  have hhead : ∀ g, (s.commit ws e).db.head g = s.db.head g := h.head_view
  have hgrows : Grows s (s.commit ws e) := by
    refine ⟨fun g => (hhead g).ge, fun g seq row hrow => (hlog g seq).trans hrow,
      fun g seq row hrow => .inl ((hlog g seq).symm.trans hrow), hhanded, ?_⟩
    exact fun x hx => hseeded x (mem_append_right _ hx)
  refine ⟨?_, hgrows, fun g _ => ⟨hhead g, hlog g, fun event hevent hgid hlt => ?_⟩⟩
  · constructor
    case head => exact fun g => (hhead g).symm ▸ hinv.head g
    case rows =>
      intro g seq row hrow
      rw [hlog] at hrow
      rw [hhead]
      exact hinv.rows g seq row hrow
    case cursors =>
      intro g u D c hc
      obtain ⟨hbounded, hrows⟩ := (h.covered_view hinv hc).mono hgrows
      refine ⟨hbounded, fun seq row hrow hvisible hle => ?_⟩
      refine (hrows seq row hrow hvisible hle).imp_right fun hskipped => hskipped.mono ?_
      intro x hx
      rcases mem_append.mp hx with hin | hold
      · exact hseeded x (mem_append_left _ hin)
      · exact hold
    case handed =>
      intro event hevent hle
      rw [hhead] at hle
      rw [hlog]
      rcases hnew event hevent with hold | hrow
      · exact hinv.handed event hold hle
      · exact hrow
  · rcases hnew event hevent with hold | ⟨row, hrow, -⟩
    · exact hold
    · have := (hinv.rows _ _ row hrow).2
      rw [hhead, ← hgid] at hlt
      omega

/-! ## Moving and creating cursors -/

/-- `upsert_log_cursor`.  Where an existing cursor is moved to, and where a new one starts, has to
be covered by the time the statement runs; a new one may count on `seeds'`. -/
theorem wp_upsertLogCursor {seq seed : ℤ} (h : Reading seeds ws s) (hsub : ∀ x ∈ seeds, x ∈ seeds')
    (hold : ∀ s', Grows s s' → Inv s' → Covered seeds s' g u D seq)
    (hnew : ∀ s', Grows s s' → Inv s' → Covered seeds' s' g u D (max seq seed)) :
    outline.wp r (upsertLogCursor g u D seq seed)
      (fun found ws s => Reading (if found.2 then seeds' else seeds) ws s) ws s := by
  refine wp_read_bind outline_coherent fun s₁ hrely₁ _ _ => ?_
  refine wp_write outline_coherent fun s₂ hrely₂ hinv₂ _ => ?_
  have hgrows := (Rely.toGrows hrely₁).trans (Rely.toGrows hrely₂)
  have h₂ := h.mono hgrows
  suffices hrow : ∀ old, (s₂.view ws).groupLogCursors.get (g, u, D) = old →
      Reading (if old.isNone then seeds' else seeds)
        (ws ++ [.logCursor g u D (some (.upsert old seq seed s₁.ext.now))]) s₂ from hrow _ rfl
  rintro (_ | c) hc
  · exact (h₂.weaken hsub).append_cursor (hnew s₂ hgrows hinv₂)
  · exact h₂.append_cursor ((h₂.covered_view hinv₂ hc).max (hold s₂ hgrows hinv₂))

theorem wp_markReader (h : Reading seeds ws s) :
    outline.wp r (markReader u D) (fun _ ws s' => Reading seeds ws s' ∧ Grows s s') ws s := by
  refine wp_read_bind outline_coherent fun s₁ hrely₁ _ _ => ?_
  refine wp_write outline_coherent fun s₂ hrely₂ _ _ => ?_
  have hgrows := (Rely.toGrows hrely₁).trans (Rely.toGrows hrely₂)
  exact ⟨(h.mono hgrows).append_foreign (forall_mem_singleton.mpr trivial), hgrows⟩

/-- `room_head`. -/
theorem wp_roomHead (h : Reading seeds ws s) : outline.wp r (roomHead g)
      (fun head ws s => Reading seeds ws s ∧ head ≤ s.db.head g) ws s := by
  refine wp_read outline_coherent fun s₁ hrely _ _ => ?_
  have h₁ := h.mono (Rely.toGrows hrely)
  exact ⟨h₁, (h₁.head_view g).le⟩

/-- A cursor that starts an install at a head of the room. -/
theorem wp_seedCursor {head : ℤ} (h : Reading seeds ws s) (hhead : head ≤ s.db.head g) :
    outline.wp r (upsertLogCursor g u D 0 head) (fun found ws s =>
      Reading (if found.2 then seeds ++ [(g, u, D, head)] else seeds) ws s) ws s := by
  refine wp_upsertLogCursor h (fun x hx => mem_append_left _ hx) ?_ ?_
  · exact fun s' _ hinv => .zero hinv
  · exact fun s' hgrows hinv => .of_seed hinv (hhead.trans (hgrows.head g)) (by simp)

/-! ## Fetching -/

/-- The starts of a scan, as they are recorded. -/
def scanSeeds (u : Uin) (D : DeviceId) (seeds : List (GroupId × ℤ)) : Seeds :=
  seeds.map fun x => (x.1, u, D, x.2)

theorem wp_scanRoom {scan : RoomScan} {after : Option ℤ}
    (h : Reading (scanSeeds u D scan.seeds) ws s) : outline.wp r (scanRoom u D scan g after)
      (fun scan ws s => Reading (scanSeeds u D scan.seeds) ws s) ws s := by
  refine wp_seq (wp_roomHead h) ?_
  rintro head ws s ⟨h, hhead⟩
  unfold logPosition
  cases scan.cursors.lookup g with
  | some pos => exact h
  | none =>
    refine wp_seq (wp_seedCursor h hhead) fun found ws s h => ?_
    cases hnew : found.2 with
    | true =>
      rw [hnew, if_pos rfl] at h
      simpa [wp, RoomScan.add, scanSeeds, hnew] using h
    | false =>
      rw [hnew, if_neg (by simp)] at h
      simpa [wp, RoomScan.add, scanSeeds, hnew] using h

theorem wp_scanRooms {wanted : List (GroupId × Option ℤ)} {scan : RoomScan}
    (h : Reading (scanSeeds u D scan.seeds) ws s) : outline.wp r (scanRooms u D wanted scan)
      (fun scan ws s => Reading (scanSeeds u D scan.seeds) ws s) ws s := by
  induction wanted generalizing scan ws s with
  | nil => exact h
  | cons room rest ih => exact wp_seq (wp_scanRoom h) fun _ _ _ h => ih h

theorem mem_visibleRows {db : Db} {start seq : ℤ} {row : LogRow} :
    (seq, row) ∈ db.visibleRows u g start ↔
      db.groupLog.get (g, seq) = some row ∧ start < seq ∧ Visible row u := by
  simp only [Db.visibleRows, mem_insertionSort, mem_map, Prod.mk.injEq, Prod.exists,
    Table.mem_select, Bool.and_eq_true, beq_iff_eq, decide_eq_true_eq, Visible]
  constructor
  · rintro ⟨g', seq', row', ⟨hget, ⟨rfl, hlt⟩, hvisible⟩, rfl, rfl⟩
    exact ⟨hget, hlt, hvisible⟩
  · rintro ⟨hget, hlt, hvisible⟩
    exact ⟨g, seq, row, ⟨hget, ⟨rfl, hlt⟩, hvisible⟩, rfl, rfl⟩

/-! ### One round -/

variable {page : Page} {i : ℕ} {room room' : Room} {row : ℤ × LogRow} {tail : List (ℤ × LogRow)}

/-- The row does not fit what is left of the budget, and may not stretch it. -/
def TooBig (page : Page) (room : Room) (row : ℤ × LogRow) : Prop :=
  page.bytesLeft < row.2.payload.length ∧
    (room.given ≠ 0 ∨ page.stretched ∨ groupLogPageBytes < row.2.payload.length)

/-- The row does not fit, and stretches the budget. -/
def Stretches (page : Page) (room : Room) (row : ℤ × LogRow) : Prop :=
  page.bytesLeft < row.2.payload.length ∧
    ¬(room.given ≠ 0 ∨ page.stretched ∨ groupLogPageBytes < row.2.payload.length)

theorem size_cases (page : Page) (room : Room) (row : ℤ × LogRow) :
    TooBig page room row ∨ Stretches page room row ∨ row.2.payload.length ≤ page.bytesLeft := by
  by_cases hsize : page.bytesLeft < row.2.payload.length
  · by_cases hout : room.given ≠ 0 ∨ page.stretched ∨ groupLogPageBytes < row.2.payload.length
    · exact .inl ⟨hsize, hout⟩
    · exact .inr (.inl ⟨hsize, hout⟩)
  · exact .inr (.inr (not_lt.mp hsize))

theorem serve_empty (hbuf : room.buf = []) :
    page.serve i room = { page with rooms := page.rooms.set i { room with turn := false } } := by
  simp only [Page.serve, hbuf]

theorem serve_tooBig (hbuf : room.buf = row :: tail) (hbig : TooBig page room row) :
    page.serve i room = { page with
      rooms := page.rooms.set i { room with turn := false }
      tooBig := page.tooBig ++ [i] } := by
  simp only [Page.serve, hbuf, if_pos hbig.1, if_pos hbig.2]

theorem serve_stretch (hbuf : room.buf = row :: tail) (hstretch : Stretches page room row) :
    page.serve i room = { page with
      rooms := page.rooms.set i room.pick
      rowsLeft := page.rowsLeft - 1
      stretched := true } := by
  simp only [Page.serve, hbuf, if_pos hstretch.1, if_neg hstretch.2]

theorem serve_fits (hbuf : room.buf = row :: tail) (hfits : row.2.payload.length ≤ page.bytesLeft) :
    page.serve i room = { page with
      rooms := page.rooms.set i room.pick
      rowsLeft := page.rowsLeft - 1
      bytesLeft := page.bytesLeft - row.2.payload.length } := by
  simp only [Page.serve, hbuf, if_neg (not_lt.mpr hfits)]

/-- A round finds nothing to pick, finds a row that is too big, or picks the next row. -/
theorem serve_elim {P : Page → Prop}
    (hempty : room.buf = [] →
      P { page with rooms := page.rooms.set i { room with turn := false } })
    (hbig : ∀ row tail, room.buf = row :: tail → TooBig page room row → P { page with
      rooms := page.rooms.set i { room with turn := false }
      tooBig := page.tooBig ++ [i] })
    (hpick : ∀ row tail, room.buf = row :: tail → ∀ bytesLeft stretched, P { page with
      rooms := page.rooms.set i room.pick
      rowsLeft := page.rowsLeft - 1
      bytesLeft := bytesLeft
      stretched := stretched }) : P (page.serve i room) := by
  cases hbuf : room.buf with
  | nil => exact serve_empty hbuf ▸ hempty hbuf
  | cons row tail =>
    rcases size_cases page room row with htoo | hstretch | hfits
    · exact serve_tooBig hbuf htoo ▸ hbig row tail hbuf htoo
    · exact serve_stretch hbuf hstretch ▸ hpick row tail hbuf _ _
    · exact serve_fits hbuf hfits ▸ hpick row tail hbuf _ _

/-- The room after some of its rows were picked. -/
def Later (room new : Room) : Prop :=
  new.gid = room.gid ∧ ∃ took, new.picked = room.picked ++ took ∧ room.buf = took ++ new.buf

theorem later_pick (room : Room) : Later room room.pick := by
  unfold Room.pick
  split
  · exact ⟨rfl, [], by simp⟩
  · exact ⟨rfl, [_], rfl, ‹_›⟩

theorem serve_rooms (page : Page) (i : ℕ) (room : Room) :
    ∃ new, (page.serve i room).rooms = page.rooms.set i new ∧ Later room new := by
  have hout : Later room { room with turn := false } := ⟨rfl, [], by simp⟩
  exact serve_elim (P := fun page' => ∃ new, page'.rooms = page.rooms.set i new ∧ Later room new)
    (fun _ => ⟨_, rfl, hout⟩) (fun _ _ _ _ => ⟨_, rfl, hout⟩)
    fun _ _ _ _ _ => ⟨_, rfl, later_pick room⟩

theorem pick_gid (room : Room) : room.pick.gid = room.gid :=
  (later_pick room).1

/-! ### Serving what was committed -/

/-- The rows that the page builder has in hand are committed rows of their rooms. -/
def InHand (s : State) (rooms : List Room) : Prop :=
  ∀ room ∈ rooms, ∀ x ∈ room.buf ++ room.picked, s.db.groupLog.get (room.gid, x.1) = some x.2

theorem InHand.mono {rooms : List Room} (h : InHand s rooms) (hgrows : Grows s s') :
    InHand s' rooms :=
  fun room hroom x hx => hgrows.kept _ _ _ (h room hroom x hx)

theorem InHand.set {rooms : List Room} (h : InHand s rooms)
    (hroom : InHand s [room]) : InHand s (rooms.set i room) := by
  intro room' hmem
  rcases mem_or_eq_of_mem_set hmem with hold | rfl
  · exact h room' hold
  · exact hroom _ mem_cons_self

theorem InHand.later (h : InHand s [room]) (hlater : Later room room') : InHand s [room'] := by
  obtain ⟨hgid, took, hpicked, hbuf⟩ := hlater
  refine forall_mem_singleton.mpr fun x hx => ?_
  rw [hgid]
  refine h room mem_cons_self x ?_
  simp only [hpicked, hbuf, mem_append] at hx ⊢
  tauto

theorem InHand.serve (h : InHand s page.rooms) (hroom : InHand s [room]) :
    InHand s (page.serve i room).rooms := by
  obtain ⟨room', hrooms, hlater⟩ := serve_rooms page i room
  rw [hrooms]
  exact h.set (hroom.later hlater)

theorem wp_load {chunk : ℕ} (h : Reading seeds ws s) (hroom : InHand s [room]) :
    outline.wp r (room.load u chunk)
      (fun room ws s' => Reading seeds ws s' ∧ InHand s' [room] ∧ Grows s s') ws s := by
  unfold Room.load
  split
  · refine wp_read_bind outline_coherent fun s₁ hrely _ _ => ?_
    have hgrows := Rely.toGrows hrely
    have h₁ := h.mono hgrows
    refine ⟨h₁, forall_mem_singleton.mpr fun x hx => ?_, hgrows⟩
    simp only [Room.refill, mem_append] at hx
    rcases hx with (hbuf | hgot) | hpicked
    · exact hroom.mono hgrows room mem_cons_self x (mem_append_left _ hbuf)
    · rw [← h₁.log_view]
      exact (mem_visibleRows.mp (mem_of_mem_take hgot)).1
    · exact hroom.mono hgrows room mem_cons_self x (mem_append_right _ hpicked)
  · exact ⟨h, hroom, .refl s⟩

theorem wp_pageLoop {chunk fuel : ℕ} (h : Reading seeds ws s) (hpage : InHand s page.rooms) :
    outline.wp r (pageLoop u chunk fuel page)
      (fun page ws s => Reading seeds ws s ∧ InHand s page.rooms) ws s := by
  induction fuel generalizing page ws s with
  | zero => exact ⟨h, hpage⟩
  | succ fuel ih =>
    unfold pageLoop
    split
    · exact ⟨h, hpage⟩
    split
    · exact ⟨h, hpage⟩
    split
    · exact ⟨h, hpage⟩
    · rename_i room hget
      have hroom : InHand s [room] := forall_mem_singleton.mpr (hpage _ (mem_of_getElem? hget))
      refine wp_seq (wp_load h hroom) ?_
      rintro room ws s' ⟨h, hroom, hgrows⟩
      exact ih h ((hpage.mono hgrows).serve hroom)

theorem InHand.alone (h : InHand s page.rooms) : InHand s page.alone.rooms := by
  unfold Page.alone
  split
  · split
    · exact h
    split
    · exact h
    · rename_i room hget
      have hroom : InHand s [room] := forall_mem_singleton.mpr (h _ (mem_of_getElem? hget))
      exact h.set (hroom.later (later_pick room))
  · exact h

/-- `_fair_log_page` picks committed rows. -/
theorem wp_fairLogPage {starts : List (GroupId × ℤ)} {limit : ℕ} (h : Reading seeds ws s) :
    outline.wp r (fairLogPage u starts limit) (fun page ws s => Reading seeds ws s ∧
      ∀ x ∈ page.1, ∀ y ∈ x.2, s.db.groupLog.get (x.1, y.1) = some y.2) ws s := by
  unfold fairLogPage
  split
  · exact ⟨h, by simp⟩
  · have hstart : InHand s (Page.initial starts limit).rooms := by
      intro room hroom x hx
      obtain ⟨y, -, rfl⟩ := mem_map.mp hroom
      simp at hx
    refine wp_seq (wp_pageLoop h hstart) ?_
    rintro page ws s ⟨h, hpage⟩
    refine ⟨h, fun x hx y hy => ?_⟩
    obtain ⟨room, hroom, rfl⟩ := mem_map.mp hx
    exact hpage.alone room hroom y (mem_append_right _ hy)

theorem mem_servedRows {picked : List (GroupId × List (ℤ × LogRow))} {row : GroupLogRow}
    (h : row ∈ servedRows picked) :
    ∃ x ∈ picked, ∃ y ∈ x.2, row.gid = x.1 ∧ row.seq = y.1 ∧ row.payload = y.2.payload := by
  obtain ⟨x, hx, hrow⟩ := mem_flatMap.mp h
  obtain ⟨y, hy, rfl⟩ := mem_map.mp hrow
  exact ⟨x, hx, y, hy, rfl, rfl, rfl⟩

/-- `POST /messages/group-log/fetch` keeps the invariant. -/
theorem wp_fetchGroupLog (u : Uin) (D : DeviceId) (body : GroupLogFetchIn) :
    outline.Safe r (fetchGroupLog u D body) [] s := by
  refine wp_read_bind outline_coherent fun s₁ _ _ _ => ?_
  refine wp_read_bind outline_coherent fun s₂ _ _ _ => ?_
  refine wp_seq (wp_scanRooms (.nil _ s₂)) fun scan ws s h => ?_
  refine wp_seq (wp_fairLogPage h) ?_
  rintro page ws s ⟨h, hpage⟩
  refine wp_seq (wp_onlyIf (fun _ => wp_markReader h) fun _ => ⟨h, .refl s⟩) ?_
  rintro _ ws s' ⟨h, hgrows⟩
  refine wp_bind.mpr (wp_commit fun s₃ hrely hinv _ => ⟨?_, trivial⟩)
  have hgrows₃ := hgrows.trans (Rely.toGrows hrely)
  refine (h.mono (Rely.toGrows hrely)).step_commit hinv ?_ ?_ ?_ r
  · exact fun event hevent => mem_append_right _ hevent
  · exact fun x hx => hx
  · intro event hevent
    rcases mem_append.mp hevent with hin | hold
    · obtain ⟨row, hrow, rfl⟩ := mem_map.mp hin
      obtain ⟨x, hx, y, hy, hgid, hseq, hpayload⟩ := mem_servedRows hrow
      refine .inr ⟨y.2, ?_, hpayload.symm⟩
      dsimp only
      rw [hgid, hseq]
      exact hgrows₃.kept _ _ _ (hpage x hx y hy)
    · exact .inl hold

/-! ## Acking -/

theorem wp_ackRooms {rooms known : List (GroupId × ℤ)} {moved : ℕ} (h : Reading [] ws s)
    (hrooms : ∀ x ∈ rooms, Covered [] s x.1 u D x.2) :
    outline.wp r (ackRooms u D rooms known moved) (fun _ ws s => Reading [] ws s) ws s := by
  induction rooms generalizing known moved ws s with
  | nil => exact h
  | cons room rest ih =>
    obtain ⟨gid, upto⟩ := room
    have hrest : ∀ x ∈ rest, Covered [] s x.1 u D x.2 :=
      fun x hx => hrooms x (mem_cons_of_mem _ hx)
    unfold ackRooms
    split
    · exact ih h hrest
    · have hupto := hrooms _ mem_cons_self
      have hmoved : outline.wp r (upsertLogCursor gid u D upto upto)
          (fun found ws s => Reading (if found.2 then [] else []) ws s) ws s :=
        wp_upsertLogCursor h (fun _ hx => hx) (fun _ hgrows _ => hupto.mono hgrows)
          fun _ hgrows _ => (max_self upto).symm ▸ hupto.mono hgrows
      refine wp_seq (wp_and_stable ?_ ?_ hmoved hrest) fun found ws s h => ih ?_ h.2
      · exact fun _ _ _ _ hk hrely _ x hx => (hk x hx).mono (Rely.toGrows hrely)
      · exact fun _ _ _ _ hk hstep x hx => (hk x hx).mono (Guar.toGrows hstep.guar)
      · simpa using h.1

/-- `POST /messages/group-log/ack` keeps the invariant, for acks that the install may make. -/
theorem wp_ackGroupLog {rooms : List (GroupId × ℤ)} (hinv : Inv s)
    (hrooms : ∀ x ∈ rooms, MayAck s x.1 u D x.2) : outline.Safe r (ackGroupLog u D rooms) [] s := by
  refine wp_read_bind outline_coherent fun s₁ hrely₁ _ _ => ?_
  refine wp_seq (wp_ackRooms (.nil _ s₁) fun x hx => ?_) fun moved ws s h => ?_
  · have hmay := hrooms x ((mem_insertionSort _).mp hx)
    exact (Covered.of_mayAck hinv hmay).mono (Rely.toGrows hrely₁)
  · refine wp_seq (wp_onlyIf (fun _ => wp_markReader h) fun _ => ⟨h, .refl s⟩) ?_
    rintro _ ws s' ⟨h, -⟩
    refine wp_bind.mpr (wp_commit fun s₂ hrely₂ hinv₂ _ => ⟨?_, trivial⟩)
    exact (h.mono (Rely.toGrows hrely₂)).step_commit hinv₂ (fun _ h => h) (fun _ h => h)
      (fun _ h => .inl h) r

/-! ## Joining -/

theorem wp_seedDevices {head : ℤ} {devices : List DeviceId} {found : List (DeviceId × ℤ)}
    (h : Reading (found.map fun x => (g, u, x.1, x.2)) ws s) (hhead : head ≤ s.db.head g) :
    outline.wp r (seedDevices g u head devices found)
      (fun found ws s => Reading (found.map fun x => (g, u, x.1, x.2)) ws s) ws s := by
  induction devices generalizing found ws s with
  | nil => exact h
  | cons device rest ih =>
    refine wp_seq (wp_and_stable ?_ ?_ (wp_seedCursor h hhead) hhead) fun new ws s h => ih ?_ h.2
    · exact fun _ _ _ _ hle hrely _ => hle.trans ((Rely.toGrows hrely).head g)
    · exact fun _ _ _ _ hle hstep => hle.trans ((Guar.toGrows hstep.guar).head g)
    · cases hnew : new.2 with
      | true => simpa [hnew] using h.1
      | false => simpa [hnew] using h.1

theorem wp_joinGroup (g : GroupId) (u : Uin) (refusal : Option HttpError) :
    outline.Safe r (joinGroup g u refusal) [] s := by
  refine wp_read_bind outline_coherent fun s₁ _ _ _ => ?_
  split
  · exact trivial
  · cases refusal with
    | some e => exact trivial
    | none =>
      refine wp_seq (Q := fun _ ws _ => ws = []) rfl ?_
      rintro _ ws s rfl
      refine wp_write_bind outline_coherent fun s₂ _ _ _ => ?_
      have h : Reading [] ([] ++ [.member g u (some ())]) s₂ :=
        (Reading.nil [] s₂).append_foreign (forall_mem_singleton.mpr trivial)
      have hseeded : outline.wp r (seedCursorsOnJoin g u) (fun found ws s =>
          Reading (found.map fun x => (g, u, x.1, x.2)) ws s)
          ([] ++ [.member g u (some ())]) s₂ := by
        refine wp_read_bind outline_coherent fun s₃ hrely _ _ => ?_
        have h₃ := h.mono (Rely.toGrows hrely)
        split
        · exact h₃
        · refine wp_seq (wp_roomHead h₃) ?_
          rintro head ws s ⟨h, hhead⟩
          exact wp_seedDevices h hhead
      refine wp_seq hseeded fun found ws s h => ?_
      refine wp_commit fun s₄ hrely hinv _ => ⟨?_, trivial⟩
      refine (h.mono (Rely.toGrows hrely)).step_commit hinv ?_ ?_ ?_ r
      · exact fun _ h => h
      · exact fun _ h => h
      · exact fun _ h => .inl h

end RcqServer.RoomLog
