import RcqServer.RoomLog.Withheld
import RcqServer.RoomLog.Opening
import Mathlib.Algebra.Order.BigOperators.Group.List
import Mathlib.Algebra.Order.Ring.Nat

/-!
# Polling beside stalled rooms

An install fetches page after page and acks every row that it is handed, except in some rooms,
`stalled`, whose cursors never move; nobody posts.  Does it get every row of the other rooms?

A page either serves one of the other rooms, and then fewer of their rows are left, or it serves
none, and then nothing has changed and every later page is the same.  So the question is whether
the polling ever reaches a state with rows left in which the stalled rooms keep all of them out
(`Moves`, by the openings of `RoomLog.Opening`).  The service does not exclude this: rooms with
enough empty rows, or two with rows of a full page, are enough.
-/

namespace RcqServer.RoomLog

open ReadCommitted Messages List Function

/-- Every row of the log is at or below its room's head, and fits a page. -/
structure LogOk (db : Db) : Prop where
  rows : ∀ g seq row, db.groupLog.get (g, seq) = some row → seq ≤ db.head g
  fits : ∀ k row, db.groupLog.get k = some row → row.payload.length ≤ groupLogPageBytes

/-! ## One poll -/

/-- The rows that the install acks. -/
def acksOf (stalled : GroupId → Bool) (rows : List GroupLogRow) : List (GroupId × ℤ) :=
  (rows.filter fun r => !stalled r.gid).map fun r => (r.gid, r.seq)

/-- The rows of a page that is fetched in state `s`. -/
def answer (u : Uin) (D : DeviceId) (limit : ℕ) (s : State) : List GroupLogRow :=
  match ((fetchGroupLog u D ⟨none, limit⟩).exec s).1 with
  | .ok out => out.rows
  | .error _ => []

/-- Fetch a page of all rooms, and ack what came of those that are not stalled. -/
def poll (u : Uin) (D : DeviceId) (limit : ℕ) (stalled : GroupId → Bool) (s : State) : State :=
  ((ackGroupLog u D (acksOf stalled (answer u D limit s))).exec
    ((fetchGroupLog u D ⟨none, limit⟩).exec s).2).2

/-- The rows of a room that the install has still to read. -/
def pending (u : Uin) (D : DeviceId) (s : State) (g : GroupId) : List (ℤ × LogRow) :=
  s.db.visibleRows u g (readFrom s.db u D g)

/-- A row as it is served. -/
def asServed (g : GroupId) (x : ℤ × LogRow) : GroupLogRow :=
  ⟨g, x.1, x.2.envelopeType, x.2.cls, x.2.payload, x.2.receivedAt⟩

variable {u : Uin} {D : DeviceId} {limit : ℕ} {stalled : GroupId → Bool} {s : State}

/-! ### The rooms of a page -/

theorem roomsOf_nodup (db : Db) (u : Uin) : (db.roomsOf u).Nodup := by
  unfold Db.roomsOf
  rw [Nodup, pairwise_map]
  have hkeys : (db.members.select fun k _ => k.2 == u).Pairwise fun a b => a.1 ≠ b.1 :=
    (pairwise_map.mp db.members.rows_keys_nodup).filter _
  refine hkeys.imp_of_mem fun {a b} ha hb hab heq => hab ?_
  have huin : ∀ x ∈ db.members.select (fun k _ => k.2 == u), x.1.2 = u := by
    rintro ⟨k, row⟩ hx
    simpa using (Table.mem_select.mp hx).2
  exact Prod.ext heq ((huin a ha).trans (huin b hb).symm)

/-- The rooms of the account in the order in which they are answered. -/
def sortedRooms (db : Db) (u : Uin) : List GroupId :=
  (db.roomsOf u).insertionSort (· ≤ ·)

variable {db db' : Db} {g : GroupId} {acks : List (GroupId × ℤ)}

theorem mem_sortedRooms : g ∈ sortedRooms db u ↔ g ∈ db.roomsOf u :=
  mem_insertionSort _

theorem sortedRooms_nodup (db : Db) (u : Uin) : (sortedRooms db u).Nodup :=
  (perm_insertionSort _ _).nodup_iff.mpr (roomsOf_nodup db u)

/-- A fetch of all rooms reads those in which the install is behind the head, in order. -/
theorem startsFor_all {gs : List GroupId} (hgs : gs.Nodup) :
    startsFor db u D (gs.map fun g => (g, none)) =
      (gs.filter fun g => readFrom db u D g < db.head g).map fun g => (g, readFrom db u D g) := by
  induction gs using reverseRecOn with
  | nil => rfl
  | append_singleton gs g ih =>
    obtain ⟨hgs', -, hdisjoint⟩ := nodup_append.mp hgs
    have hfold : startsFor db u D ((gs ++ [g]).map fun g => (g, none)) =
        addStart db u D (startsFor db u D (gs.map fun g => (g, none))) (g, none) := by
      simp [startsFor]
    have hothers : ((gs.filter fun g => readFrom db u D g < db.head g).map
        fun g => (g, readFrom db u D g)).filter (fun y => y.1 ≠ g) =
          (gs.filter fun g => readFrom db u D g < db.head g).map
            fun g => (g, readFrom db u D g) := by
      refine filter_eq_self.mpr fun y hy => ?_
      obtain ⟨g', hg', rfl⟩ := mem_map.mp hy
      have hne : g' ≠ g := hdisjoint g' (mem_filter.mp hg').1 g (by simp)
      simpa using hne
    rw [hfold, ih hgs', addStart]
    dsimp only
    rw [hothers, filter_append, map_append]
    by_cases hlt : readFrom db u D g < db.head g
    · simp [hlt]
    · simp [hlt]

/-- The page of a fetch of all rooms. -/
abbrev pageFor (u : Uin) (D : DeviceId) (limit : ℕ) (s : State) : Page :=
  pageOf s.db u D ⟨none, limit⟩

theorem wantedOf_all (db : Db) (u : Uin) (limit : ℕ) :
    wantedOf db u ⟨none, limit⟩ = (sortedRooms db u).map fun g => (g, none) := rfl

theorem contents_pageFor : (pageFor u D limit s).rooms.map contents =
      ((sortedRooms s.db u).filter fun g => readFrom s.db u D g < s.db.head g).map
        fun g => (g, pending u D s g) := by
  unfold pageFor pageOf
  rw [contents_fullPage, wantedOf_all, startsFor_all (sortedRooms_nodup s.db u), map_map]
  rfl

/-- A room of the page holds what is pending in it, served or not. -/
theorem picked_append_buf {room : Room} (hroom : room ∈ (pageFor u D limit s).rooms) :
    room.gid ∈ s.db.roomsOf u ∧ room.picked ++ room.buf = pending u D s room.gid := by
  have hmem : contents room ∈ (pageFor u D limit s).rooms.map contents :=
    mem_map_of_mem hroom
  rw [contents_pageFor] at hmem
  obtain ⟨g, hg, heq⟩ := mem_map.mp hmem
  obtain ⟨rfl, hrows⟩ := Prod.mk.inj heq
  exact ⟨mem_sortedRooms.mp (mem_filter.mp hg).1, hrows.symm⟩

/-- The page has every room with pending rows. -/
theorem exists_room (hok : LogOk s.db) (hg : g ∈ s.db.roomsOf u)
    (hpending : pending u D s g ≠ []) : ∃ room ∈ (pageFor u D limit s).rooms, room.gid = g := by
  obtain ⟨⟨seq, row⟩, hrow⟩ := exists_mem_of_ne_nil _ hpending
  obtain ⟨hget, hlt, -⟩ := mem_visibleRows.mp hrow
  have hbehind : readFrom s.db u D g < s.db.head g := hlt.trans_le (hok.rows g seq row hget)
  have hmem : (g, pending u D s g) ∈ (pageFor u D limit s).rooms.map contents := by
    rw [contents_pageFor]
    refine mem_map.mpr ⟨g, mem_filter.mpr ⟨mem_sortedRooms.mpr hg, ?_⟩, rfl⟩
    exact decide_eq_true hbehind
  obtain ⟨room, hroom, heq⟩ := mem_map.mp hmem
  exact ⟨room, hroom, (Prod.mk.inj heq).1⟩

/-- The page has no room twice. -/
theorem room_unique {a b : Room} (ha : a ∈ (pageFor u D limit s).rooms)
    (hb : b ∈ (pageFor u D limit s).rooms) (hgid : a.gid = b.gid) : a = b := by
  have hnodup : ((pageFor u D limit s).rooms.map Room.gid).Nodup := by
    have hgids : (pageFor u D limit s).rooms.map Room.gid =
        ((pageFor u D limit s).rooms.map contents).map Prod.fst := by
      rw [map_map]
      rfl
    rw [hgids, contents_pageFor, map_map]
    exact (map_id' _).symm ▸ (sortedRooms_nodup s.db u).filter _
  exact inj_on_of_nodup_map hnodup ha hb hgid

/-! ### The store after a poll -/

/-- What a poll does to the store. -/
structure Polled (u : Uin) (D : DeviceId) (acks : List (GroupId × ℤ)) (db db' : Db) : Prop where
  groupSeq : db'.groupSeq = db.groupSeq
  groupLog : db'.groupLog = db.groupLog
  members : db'.members = db.members
  forward : ∀ g ∈ db.roomsOf u, readFrom db u D g ≤ readFrom db' u D g
  reached : ∀ x ∈ acks, x.2 ≤ readFrom db' u D x.1
  source : ∀ g ∈ db.roomsOf u, readFrom db' u D g = readFrom db u D g ∨
    (g, readFrom db' u D g) ∈ acks

theorem readFrom_of_cursor {c : LogCursor}
    (hc : db.groupLogCursors.get (g, u, D) = some c) : readFrom db u D g = c.lastSeq := by
  simp [readFrom, hc]

/-- A reader mark is the only difference there may be. -/
def UpToMark (u : Uin) (D : DeviceId) (db db' : Db) : Prop :=
  db' = db ∨ Marked u D db db'

theorem UpToMark.tables (h : UpToMark u D db db') :
    db'.groupSeq = db.groupSeq ∧ db'.groupLog = db.groupLog ∧ db'.members = db.members ∧
      db'.groupLogCursors = db.groupLogCursors := by
  rcases h with rfl | ⟨mark, rfl⟩
  · exact ⟨rfl, rfl, rfl, rfl⟩
  · exact ⟨rfl, rfl, rfl, rfl⟩

/-- A fetch has left a cursor in every room, where it has read from; then the ack moves some. -/
theorem Seeded.polled {db₁ db₁' db₂ db₂' : Db}
    (hseeded : Seeded u D (sortedRooms db u) db db₁) (hfetch : UpToMark u D db₁ db₁')
    (hacked : Acked u D acks db₁' db₂) (hack : UpToMark u D db₂ db₂') :
    Polled u D acks db db₂' := by
  obtain ⟨hseq₁, hlog₁, hmembers₁, hcursors₁⟩ := hfetch.tables
  obtain ⟨hseq₂, hlog₂, hmembers₂, hcursors₂⟩ := hack.tables
  have hcursor : ∀ g ∈ db.roomsOf u, ∃ c, db₁'.groupLogCursors.get (g, u, D) = some c ∧
      c.lastSeq = readFrom db u D g := by
    intro g hg
    obtain ⟨c, hc⟩ := hseeded.seated g (mem_sortedRooms.mpr hg)
    exact ⟨c, hcursors₁ ▸ hc, hseeded.lastSeq hc⟩
  have hreadFrom : ∀ g c, db₂.groupLogCursors.get (g, u, D) = some c →
      readFrom db₂' u D g = c.lastSeq :=
    fun g c hc => readFrom_of_cursor (hcursors₂ ▸ hc)
  refine ⟨hseq₂.trans (hacked.groupSeq.trans (hseq₁.trans hseeded.groupSeq)),
    hlog₂.trans (hacked.groupLog.trans (hlog₁.trans hseeded.groupLog)),
    hmembers₂.trans (hacked.members.trans (hmembers₁.trans hseeded.members)),
    fun g hg => ?_, fun x hx => ?_, fun g hg => ?_⟩
  · obtain ⟨c, hc, hpos⟩ := hcursor g hg
    obtain ⟨c', hc', hle⟩ := hacked.kept _ c hc
    rw [hreadFrom g c' hc', ← hpos]
    exact hle
  · obtain ⟨c, hc, hle⟩ := hacked.reached x hx
    rwa [hreadFrom x.1 c hc]
  · obtain ⟨c, hc, hpos⟩ := hcursor g hg
    obtain ⟨c', hc', -⟩ := hacked.kept _ c hc
    rw [hreadFrom g c' hc']
    rcases hacked.source _ c' hc' with ⟨c₀, hc₀, heq⟩ | ⟨x, hx, hkey, heq⟩
    · rw [hc] at hc₀
      cases hc₀
      exact .inl (heq.symm.trans hpos)
    · obtain ⟨rfl, -⟩ := Prod.mk.inj hkey
      rw [heq]
      exact .inr hx

theorem polled_poll (hlimit : 0 < limit) (u : Uin) (D : DeviceId) (stalled : GroupId → Bool)
    (s : State) : answer u D limit s = rowsOf (pageFor u D limit s) ∧
      Polled u D (acksOf stalled (answer u D limit s)) s.db (poll u D limit stalled s).db := by
  have hwlp : (fetchGroupLog u D ⟨none, limit⟩).wlp _ _ [] s := wlp_fetchGroupLog hlimit
  obtain ⟨out, s₁, hfetch, -, hfetched⟩ := Prog.exec_eq_ok hwlp
  have hwlp' : (ackGroupLog u D (acksOf stalled (answer u D limit s))).wlp _ _ [] s₁ :=
    wlp_ackGroupLog
  obtain ⟨moved, s₂, hack, -, -, db₂, hacked, hdb₂⟩ := Prog.exec_eq_ok hwlp'
  have hanswer : answer u D limit s = out.rows := by rw [answer, hfetch]
  have hpoll : poll u D limit stalled s = s₂ := by rw [poll, hfetch, hack]
  obtain ⟨db₁, hseeded, hdb₁⟩ := hfetched.db
  rw [wantedOf_all, map_map] at hseeded
  have hrooms : (sortedRooms s.db u).map (Prod.fst ∘ fun g => (g, (none : Option ℤ))) =
      sortedRooms s.db u := map_id' _
  rw [hrooms] at hseeded
  refine ⟨hanswer.trans hfetched.rows, ?_⟩
  rw [hpoll]
  exact hseeded.polled (hdb₁.imp_right And.right) hacked (hdb₂.imp_right And.right)

/-! ### What is left after a poll -/

theorem Polled.visibleRows (h : Polled u D acks db db') (g : GroupId) (start : ℤ) :
    db'.visibleRows u g start = db.visibleRows u g start := by
  unfold Db.visibleRows
  rw [h.groupLog]

theorem Polled.roomsOf (h : Polled u D acks db db') : db'.roomsOf u = db.roomsOf u := by
  unfold Db.roomsOf
  rw [h.members]

theorem Polled.logOk (h : Polled u D acks db db') (hok : LogOk db) : LogOk db' := by
  refine ⟨fun g seq row hget => ?_, fun k row hget => ?_⟩
  · rw [h.groupLog] at hget
    have hhead : db'.head g = db.head g := by
      unfold Db.head
      rw [h.groupSeq]
    rw [hhead]
    exact hok.rows g seq row hget
  · rw [h.groupLog] at hget
    exact hok.fits k row hget

theorem mem_rowsOf_iff {page : Page} {r : GroupLogRow} :
    r ∈ rowsOf page ↔ ∃ room ∈ page.rooms, ∃ x ∈ room.picked, r = asServed room.gid x := by
  constructor
  · intro hr
    obtain ⟨_, hp, hr⟩ := mem_flatMap.mp hr
    obtain ⟨room, hroom, rfl⟩ := mem_map.mp hp
    obtain ⟨x, hx, rfl⟩ := mem_map.mp hr
    exact ⟨room, hroom, x, hx, rfl⟩
  · rintro ⟨room, hroom, x, hx, rfl⟩
    exact mem_rowsOf hroom hx

theorem mem_acksOf {rows : List GroupLogRow} {seq : ℤ} :
    (g, seq) ∈ acksOf stalled rows ↔ stalled g = false ∧ ∃ r ∈ rows, r.gid = g ∧ r.seq = seq := by
  simp only [acksOf, mem_map, mem_filter, Bool.not_eq_true', Prod.mk.injEq]
  constructor
  · rintro ⟨r, ⟨hr, hlive⟩, rfl, rfl⟩
    exact ⟨hlive, r, hr, rfl, rfl⟩
  · rintro ⟨hlive, r, hr, rfl, rfl⟩
    exact ⟨r, ⟨hr, hlive⟩, rfl, rfl⟩

section Poll

variable (hlimit : 0 < limit)
include hlimit

/-- An ack is about a room of the page, and one of the rows served there. -/
theorem mem_acks {g : GroupId} {seq : ℤ} :
    (g, seq) ∈ acksOf stalled (answer u D limit s) ↔ stalled g = false ∧
      ∃ room ∈ (pageFor u D limit s).rooms, room.gid = g ∧ ∃ x ∈ room.picked, x.1 = seq := by
  rw [mem_acksOf, (polled_poll hlimit u D stalled s).1]
  refine and_congr_right fun _ => ⟨?_, ?_⟩
  · rintro ⟨r, hr, rfl, rfl⟩
    obtain ⟨room, hroom, x, hx, rfl⟩ := mem_rowsOf_iff.mp hr
    exact ⟨room, hroom, rfl, x, hx, rfl⟩
  · rintro ⟨room, hroom, rfl, x, hx, rfl⟩
    exact ⟨asServed room.gid x, mem_rowsOf hroom hx, rfl, rfl⟩

/-- A room in which nothing is acked stays as it is. -/
theorem pending_poll_of_notMem {g : GroupId} (hg : g ∈ s.db.roomsOf u)
    (hacks : ∀ seq, (g, seq) ∉ acksOf stalled (answer u D limit s)) :
    pending u D (poll u D limit stalled s) g = pending u D s g := by
  have hpolled := (polled_poll hlimit u D stalled s).2
  have hpos := (hpolled.source g hg).resolve_right (hacks _)
  unfold pending
  rw [hpolled.visibleRows, hpos]

/-- In a room that is not stalled, what was served is read. -/
theorem pending_poll_room {room : Room} (hroom : room ∈ (pageFor u D limit s).rooms)
    (hlive : stalled room.gid = false) :
    pending u D (poll u D limit stalled s) room.gid = room.buf := by
  obtain ⟨hg, hrows⟩ := picked_append_buf hroom
  rcases eq_nil_or_concat room.picked with hnil | ⟨before, last, hlast⟩
  · rw [pending_poll_of_notMem hlimit hg, ← hrows, hnil, nil_append]
    intro seq hmem
    obtain ⟨-, other, hother, hgid, x, hx, -⟩ := (mem_acks hlimit).mp hmem
    rw [room_unique hother hroom hgid, hnil] at hx
    cases hx
  · rw [concat_eq_append] at hlast
    have hsplit : s.db.visibleRows u room.gid (readFrom s.db u D room.gid) =
        before ++ last :: room.buf := by
      have := hrows
      rw [hlast, append_assoc] at this
      exact this.symm
    have hpolled := (polled_poll hlimit u D stalled s).2
    -- The new position is the last row that was served.
    have hlastAcked : (room.gid, last.1) ∈ acksOf stalled (answer u D limit s) := by
      rw [mem_acks hlimit]
      exact ⟨hlive, room, hroom, rfl, last, by simp [hlast], rfl⟩
    have hge : last.1 ≤ readFrom (poll u D limit stalled s).db u D room.gid :=
      hpolled.reached (room.gid, last.1) hlastAcked
    have hle : readFrom (poll u D limit stalled s).db u D room.gid ≤ last.1 := by
      have hpairwise := visibleRows_pairwise s.db u room.gid (readFrom s.db u D room.gid)
      have hlastMem : last ∈ s.db.visibleRows u room.gid (readFrom s.db u D room.gid) := by
        simp [hsplit]
      rw [hsplit] at hpairwise
      rcases hpolled.source room.gid hg with hsame | hacked
      · rw [hsame]
        exact (mem_visibleRows.mp hlastMem).2.1.le
      · obtain ⟨-, other, hother, hgid, x, hx, heq⟩ := (mem_acks hlimit).mp hacked
        rw [room_unique hother hroom hgid, hlast, mem_append, mem_singleton] at hx
        rw [← heq]
        rcases hx with hx | rfl
        · exact ((pairwise_append.mp hpairwise).2.2 x hx last mem_cons_self).le
        · exact le_rfl
    unfold pending
    rw [hpolled.visibleRows, le_antisymm hle hge]
    exact visibleRows_after hsplit

/-- What is pending in a room that is not stalled is served, or pending after the poll. -/
theorem served_or_pending (hok : LogOk s.db) {g : GroupId} (hg : g ∈ s.db.roomsOf u)
    (hlive : stalled g = false) {x : ℤ × LogRow} (hx : x ∈ pending u D s g) :
    asServed g x ∈ answer u D limit s ∨ x ∈ pending u D (poll u D limit stalled s) g := by
  obtain ⟨room, hroom, rfl⟩ : ∃ room ∈ (pageFor u D limit s).rooms, room.gid = g :=
    exists_room hok hg (ne_nil_of_mem hx)
  rw [pending_poll_room hlimit hroom hlive]
  rw [← (picked_append_buf hroom).2, mem_append] at hx
  refine hx.imp_left fun hpicked => ?_
  rw [(polled_poll hlimit u D stalled s).1]
  exact mem_rowsOf hroom hpicked

end Poll

/-! ## Polling on -/

/-- A room that is not stalled has rows left. -/
def Behind (u : Uin) (D : DeviceId) (stalled : GroupId → Bool) (s : State) : Prop :=
  ∃ g ∈ s.db.roomsOf u, stalled g = false ∧ pending u D s g ≠ []

/-- Among what is pending, a row of a room that is not stalled gets in after the openings of the
stalled rooms ahead of it. -/
def Moves (u : Uin) (D : DeviceId) (limit : ℕ) (stalled : GroupId → Bool) (s : State) : Prop :=
  Admitted (fun g => !stalled g)
    ((sortedRooms s.db u).map fun g => (g, (pending u D s g).map fun x => x.2.payload.length))
    ⟨limit, groupLogPageBytes, false⟩

/-- How many rows are left in the rooms that are not stalled. -/
def rowsBehind (u : Uin) (D : DeviceId) (stalled : GroupId → Bool) (s : State) : ℕ :=
  (((s.db.roomsOf u).filter fun g => !stalled g).map fun g => (pending u D s g).length).sum

theorem livePicked_iff_moves (hok : LogOk s.db) :
    LivePicked (fun g => !stalled g) (pageFor u D limit s) ↔ Moves u D limit stalled s := by
  have hfits : ∀ x ∈ startsFor s.db u D (wantedOf s.db u ⟨none, limit⟩),
      ∀ row ∈ s.db.visibleRows u x.1 x.2, row.2.payload.length ≤ groupLogPageBytes :=
    fun x _ row hrow => hok.fits _ _ (mem_visibleRows.mp hrow).1
  have hkeep : ∀ room ∈ (sortedRooms s.db u).map (fun g =>
      (g, (pending u D s g).map fun x => x.2.payload.length)),
        decide (readFrom s.db u D room.1 < s.db.head room.1) = false → room.2 = [] := by
    intro room hroom hcaught
    obtain ⟨g, -, rfl⟩ := mem_map.mp hroom
    rw [map_eq_nil_iff, eq_nil_iff_forall_not_mem]
    rintro ⟨seq, row⟩ hrow
    obtain ⟨hget, hlt, -⟩ := mem_visibleRows.mp hrow
    exact of_decide_eq_false hcaught (hlt.trans_le (hok.rows g seq row hget))
  unfold pageFor pageOf Moves
  rw [picks_live_iff hfits, ← admitted_filter hkeep, wantedOf_all,
    startsFor_all (sortedRooms_nodup s.db u), map_map, filter_map]
  rfl

theorem admitted_all {rooms : List (GroupId × List ℕ)} {b : Budget} :
    Admitted (fun _ => true) rooms b ↔ ∃ room ∈ rooms, ∃ size ∈ room.2.head?, b.Admits size := by
  induction rooms with
  | nil => simp [Admitted]
  | cons room rest ih => simp [Admitted, ih]

section Polling

variable (hlimit : 0 < limit)
include hlimit

theorem rowsBehind_poll_lt (hok : LogOk s.db) (hmoves : Moves u D limit stalled s) :
    rowsBehind u D stalled (poll u D limit stalled s) < rowsBehind u D stalled s := by
  have hpolled := (polled_poll hlimit u D stalled s).2
  have hroom : ∀ room ∈ (pageFor u D limit s).rooms, stalled room.gid = false →
      (pending u D s room.gid).length = room.picked.length +
        (pending u D (poll u D limit stalled s) room.gid).length := by
    intro room hroom hlive
    rw [pending_poll_room hlimit hroom hlive, ← (picked_append_buf hroom).2, length_append]
  unfold rowsBehind
  rw [hpolled.roomsOf]
  refine sum_lt_sum _ _ (fun g hg => ?_) ?_
  · obtain ⟨hg, hlive⟩ := mem_filter.mp hg
    have hlive : stalled g = false := by simpa using hlive
    by_cases hin : ∃ room ∈ (pageFor u D limit s).rooms, room.gid = g
    · obtain ⟨room, hmem, rfl⟩ := hin
      have := hroom room hmem hlive
      omega
    · rw [pending_poll_of_notMem hlimit hg]
      intro seq hacked
      obtain ⟨-, room, hmem, hgid, -⟩ := (mem_acks hlimit).mp hacked
      exact hin ⟨room, hmem, hgid⟩
  · obtain ⟨room, hmem, hlive, hpicked⟩ := (livePicked_iff_moves hok).mpr hmoves
    have hlive' : stalled room.gid = false := by simpa using hlive
    refine ⟨room.gid, mem_filter.mpr ⟨(picked_append_buf hmem).1, hlive⟩, ?_⟩
    have := hroom room hmem hlive'
    have hpos := length_pos_of_ne_nil hpicked
    omega

/-- A page that serves only stalled rooms changes nothing. -/
theorem pending_poll_of_not_moves (hok : LogOk s.db) (hstuck : ¬Moves u D limit stalled s)
    {g : GroupId} (hg : g ∈ s.db.roomsOf u) :
    pending u D (poll u D limit stalled s) g = pending u D s g := by
  refine pending_poll_of_notMem hlimit hg fun seq hacked => hstuck ?_
  obtain ⟨hlive, room, hroom, rfl, x, hx, -⟩ := (mem_acks hlimit).mp hacked
  refine (livePicked_iff_moves hok).mp ⟨room, hroom, ?_, ne_nil_of_mem hx⟩
  simpa using hlive

/-- Such a page has no row of a room that is not stalled. -/
theorem asServed_notMem_of_not_moves (hok : LogOk s.db) (hstuck : ¬Moves u D limit stalled s)
    {r : GroupLogRow} (hlive : stalled r.gid = false) : r ∉ answer u D limit s := by
  rw [(polled_poll hlimit u D stalled s).1]
  intro hr
  obtain ⟨room, hroom, x, hx, rfl⟩ := mem_rowsOf_iff.mp hr
  refine hstuck ((livePicked_iff_moves hok).mp ⟨room, hroom, ?_, ne_nil_of_mem hx⟩)
  have hlive : stalled room.gid = false := hlive
  simpa using hlive

theorem not_moves_poll (hok : LogOk s.db) (hstuck : ¬Moves u D limit stalled s) :
    ¬Moves u D limit stalled (poll u D limit stalled s) := by
  have hrooms : sortedRooms (poll u D limit stalled s).db u = sortedRooms s.db u := by
    unfold sortedRooms
    rw [(polled_poll hlimit u D stalled s).2.roomsOf]
  unfold Moves
  rw [hrooms, map_congr_left fun g hg =>
    by rw [pending_poll_of_not_moves hlimit hok hstuck (mem_sortedRooms.mp hg)]]
  exact hstuck

theorem logOk_iterate (hok : LogOk s.db) (n : ℕ) : LogOk ((poll u D limit stalled)^[n] s).db := by
  induction n with
  | zero => exact hok
  | succ n ih =>
    rw [iterate_succ_apply']
    exact (polled_poll hlimit u D stalled _).2.logOk ih

theorem roomsOf_iterate (n : ℕ) :
    ((poll u D limit stalled)^[n] s).db.roomsOf u = s.db.roomsOf u := by
  induction n with
  | zero => rfl
  | succ n ih =>
    rw [iterate_succ_apply', (polled_poll hlimit u D stalled _).2.roomsOf, ih]

theorem readFrom_iterate_mono {g : GroupId} (hg : g ∈ s.db.roomsOf u) {k n : ℕ} (hkn : k ≤ n) :
    readFrom ((poll u D limit stalled)^[k] s).db u D g ≤
      readFrom ((poll u D limit stalled)^[n] s).db u D g := by
  induction n, hkn using Nat.le_induction with
  | base => exact le_rfl
  | succ n _ ih =>
    rw [iterate_succ_apply']
    refine ih.trans ((polled_poll hlimit u D stalled _).2.forward g ?_)
    rwa [roomsOf_iterate hlimit]

theorem visibleRows_iterate (g : GroupId) (start : ℤ) (n : ℕ) :
    ((poll u D limit stalled)^[n] s).db.visibleRows u g start = s.db.visibleRows u g start := by
  induction n with
  | zero => rfl
  | succ n ih =>
    rw [iterate_succ_apply', (polled_poll hlimit u D stalled _).2.visibleRows, ih]

theorem not_moves_iterate (hok : LogOk s.db) (hstuck : ¬Moves u D limit stalled s) (n : ℕ) :
    ¬Moves u D limit stalled ((poll u D limit stalled)^[n] s) := by
  induction n with
  | zero => exact hstuck
  | succ n ih =>
    rw [iterate_succ_apply']
    exact not_moves_poll hlimit (logOk_iterate hlimit hok n) ih

/-- A row that was served in a room that is not stalled is pending no more. -/
theorem notMem_pending_of_served {g : GroupId} (hg : g ∈ s.db.roomsOf u) (hlive : stalled g = false)
    {x : ℤ × LogRow} {k n : ℕ} (hkn : k < n)
    (hserved : asServed g x ∈ answer u D limit ((poll u D limit stalled)^[k] s)) :
    x ∉ pending u D ((poll u D limit stalled)^[n] s) g := by
  intro hx
  have hlt : readFrom ((poll u D limit stalled)^[n] s).db u D g < x.1 := (mem_visibleRows.mp hx).2.1
  have hacked : (g, x.1) ∈ acksOf stalled (answer u D limit ((poll u D limit stalled)^[k] s)) :=
    mem_acksOf.mpr ⟨hlive, _, hserved, rfl, rfl⟩
  have hreached := (polled_poll hlimit u D stalled ((poll u D limit stalled)^[k] s)).2.reached
    (g, x.1) hacked
  have hmono : readFrom ((poll u D limit stalled)^[k + 1] s).db u D g ≤
      readFrom ((poll u D limit stalled)^[n] s).db u D g := readFrom_iterate_mono hlimit hg hkn
  rw [iterate_succ_apply'] at hmono
  exact absurd (hreached.trans hmono) (not_le.mpr hlt)

/-- The install gets every row of the rooms that are not stalled. -/
def Drains (u : Uin) (D : DeviceId) (limit : ℕ) (stalled : GroupId → Bool) (s : State) : Prop :=
  ∃ n, ∀ g ∈ s.db.roomsOf u, stalled g = false → ∀ x ∈ pending u D s g,
    ∃ k < n, asServed g x ∈ answer u D limit ((poll u D limit stalled)^[k] s)

/-- Polling that reaches a page without a row for the rooms that are behind is stuck there. -/
theorem not_drains_of_stuck (hok : LogOk s.db) {n : ℕ}
    (hbehind : Behind u D stalled ((poll u D limit stalled)^[n] s))
    (hstuck : ¬Moves u D limit stalled ((poll u D limit stalled)^[n] s)) :
    ¬Drains u D limit stalled s := by
  rintro ⟨bound, hdrains⟩
  obtain ⟨g, hg, hlive, hpending⟩ := hbehind
  rw [roomsOf_iterate hlimit] at hg
  obtain ⟨x, hx⟩ := exists_mem_of_ne_nil _ hpending
  have hx₀ : x ∈ pending u D s g := by
    obtain ⟨seq, row⟩ := x
    have hx' := hx
    unfold pending at hx'
    rw [visibleRows_iterate hlimit] at hx'
    obtain ⟨hget, hlt, hvisible⟩ := mem_visibleRows.mp hx'
    exact mem_visibleRows.mpr
      ⟨hget, (readFrom_iterate_mono hlimit hg (Nat.zero_le n)).trans_lt hlt, hvisible⟩
  obtain ⟨k, -, hserved⟩ := hdrains g hg hlive x hx₀
  rcases lt_or_ge k n with hlt | hge
  · exact notMem_pending_of_served hlimit hg hlive hlt hserved hx
  · obtain ⟨m, rfl⟩ := Nat.exists_eq_add_of_le' hge
    rw [iterate_add_apply] at hserved
    have hok' : LogOk ((poll u D limit stalled)^[n] s).db := logOk_iterate hlimit hok n
    exact asServed_notMem_of_not_moves hlimit (logOk_iterate hlimit hok' m)
      (not_moves_iterate hlimit hok' hstuck m) hlive hserved

/-- Polling that moves on whenever rows are left has served them all when none is. -/
theorem drains_of_moves (hok : LogOk s.db)
    (hmoves : ∀ n, Behind u D stalled ((poll u D limit stalled)^[n] s) →
      Moves u D limit stalled ((poll u D limit stalled)^[n] s)) : Drains u D limit stalled s := by
  induction hrows : rowsBehind u D stalled s using Nat.strong_induction_on generalizing s with
  | _ rows ih =>
    by_cases hbehind : Behind u D stalled s
    · have hlt := rowsBehind_poll_lt hlimit hok (hmoves 0 hbehind)
      have hok' := (polled_poll hlimit u D stalled s).2.logOk hok
      obtain ⟨n, hn⟩ := ih _ (hrows ▸ hlt) hok' (fun n => hmoves (n + 1)) rfl
      refine ⟨n + 1, fun g hg hlive x hx => ?_⟩
      rcases served_or_pending hlimit hok hg hlive hx with hserved | hleft
      · exact ⟨0, by omega, hserved⟩
      · have hg' : g ∈ (poll u D limit stalled s).db.roomsOf u := by
          rwa [(polled_poll hlimit u D stalled s).2.roomsOf]
        obtain ⟨k, hk, hserved⟩ := hn g hg' hlive x hleft
        exact ⟨k + 1, by omega, hserved⟩
    · refine ⟨0, fun g hg hlive x hx => absurd ?_ hbehind⟩
      exact ⟨g, hg, hlive, ne_nil_of_mem hx⟩

theorem moves_of_behind (hbehind : Behind u D (fun _ => false) s) :
    Moves u D limit (fun _ => false) s := by
  obtain ⟨g, hg, -, hpending⟩ := hbehind
  obtain ⟨x, rows, hrows⟩ := exists_cons_of_ne_nil hpending
  refine admitted_all.mpr ⟨_, mem_map_of_mem (mem_sortedRooms.mpr hg), x.2.payload.length, ?_⟩
  exact ⟨by simp [hrows], hlimit, .inr rfl⟩

/-- A row of a room that is not stalled is on no later page. -/
theorem notMem_answer_of_served {g : GroupId} (hg : g ∈ s.db.roomsOf u) (hlive : stalled g = false)
    {x : ℤ × LogRow} {j k : ℕ} (hjk : j < k)
    (hserved : asServed g x ∈ answer u D limit ((poll u D limit stalled)^[j] s)) :
    asServed g x ∉ answer u D limit ((poll u D limit stalled)^[k] s) := by
  rw [(polled_poll hlimit u D stalled _).1]
  intro hagain
  obtain ⟨room, hroom, y, hy, heq⟩ := mem_rowsOf_iff.mp hagain
  obtain rfl : g = room.gid := congrArg GroupLogRow.gid heq
  refine notMem_pending_of_served hlimit hg hlive hjk (heq ▸ hserved) ?_
  rw [← (picked_append_buf hroom).2]
  exact mem_append_left _ hy

end Polling

/-- **Polling beside stalled rooms.**  The install gets every row of the other rooms after finitely
many pages if and only if no page that it fetches with rows left there is taken up by the openings
of the stalled rooms. -/
theorem polling_drains_iff (hlimit : 0 < limit) (hok : LogOk s.db) : Drains u D limit stalled s ↔
      ∀ n, Behind u D stalled ((poll u D limit stalled)^[n] s) →
        Moves u D limit stalled ((poll u D limit stalled)^[n] s) := by
  refine ⟨fun hdrains n hbehind => ?_, drains_of_moves hlimit hok⟩
  by_contra hstuck
  exact not_drains_of_stuck hlimit hok hbehind hstuck hdrains

section Decidable

theorem logOk_of_rows {db : Db} (h : ∀ r ∈ db.groupLog.rows, r.1.2 ≤ db.head r.1.1 ∧
    r.2.payload.length ≤ groupLogPageBytes) : LogOk db where
  rows := fun g seq row hget => (h ((g, seq), row) (Table.mem_rows.mpr hget)).1
  fits := fun k row hget => (h (k, row) (Table.mem_rows.mpr hget)).2

instance (u : Uin) (D : DeviceId) (limit : ℕ) (stalled : GroupId → Bool) (s : State) :
    Decidable (Moves u D limit stalled s) := by
  unfold Moves
  infer_instance

end Decidable

/-- Account 7 has fetched all rooms; then it posts twice into room 1 and once into room 2. -/
def crowded (payload : String) : State :=
  serve (handler ⟨14, false⟩) twoRooms
    [.fetchGroupLog 7 1 ⟨none, 500⟩,
      .sendGroupBroadcast ⟨1, .message, payload⟩ (some 7) ⟨none, none, none, [], [], []⟩,
      .sendGroupBroadcast ⟨1, .message, payload⟩ (some 7) ⟨none, none, none, [], [], []⟩,
      .sendGroupBroadcast ⟨2, .message, "hello"⟩ (some 7) ⟨none, none, none, [], [], []⟩]

/-- Room 1 is stalled, and its rows have bytes: no page is taken up by them. -/
theorem polling_drains_iff_bytes : Drains 7 1 2 (· == 1) (crowded "hello") ∧
      ∀ n, Behind 7 1 (· == 1) ((poll 7 1 2 (· == 1))^[n] (crowded "hello")) →
        Moves 7 1 2 (· == 1) ((poll 7 1 2 (· == 1))^[n] (crowded "hello")) := by
  have hok : LogOk (crowded "hello").db := logOk_of_rows (by decide +kernel)
  have hdrains : Drains 7 1 2 (· == 1) (crowded "hello") := ⟨1, by decide +kernel⟩
  exact ⟨hdrains, (polling_drains_iff (by decide) hok).mp hdrains⟩

/-- Room 1 is stalled with two empty rows, which take the two rows of every page: the post in room
2 is never served. -/
theorem live_row_starved : ∃ s : State,
    Serial (handler ⟨14, false⟩) (fun _ _ => True) twoRooms s ∧ LogOk s.db ∧
      (s.db.roomsOf 7).length ≤ 2 ∧ pending 7 1 s 2 = [(1, ⟨none, .gmsg, 1, "hello", 1000⟩)] ∧
      ¬Drains 7 1 2 (· == 1) s := by
  have hok : LogOk (crowded "").db := logOk_of_rows (by decide +kernel)
  have hrow : pending 7 1 (crowded "") 2 = [(1, ⟨none, .gmsg, 1, "hello", 1000⟩)] := by
    decide +kernel
  refine ⟨crowded "", .of_serve (by decide +kernel), hok, by decide +kernel, hrow, ?_⟩
  have hbehind : Behind 7 1 (· == 1) (crowded "") :=
    ⟨2, by decide +kernel, rfl, by rw [hrow]; simp⟩
  exact not_drains_of_stuck (n := 0) (by decide) hok hbehind (by decide +kernel)

/-! ## Polling without stalled rooms -/

/-- Every pending row comes on exactly one page, and all come after finitely many. -/
def ServedOnce (u : Uin) (D : DeviceId) (limit : ℕ) (s : State) : Prop :=
  ∃ n, ∀ g ∈ s.db.roomsOf u, ∀ x ∈ pending u D s g, ∃ k < n, ∀ j,
    asServed g x ∈ answer u D limit ((poll u D limit fun _ => false)^[j] s) ↔ j = k

/-- **Polling.**  An install that acks every row that it is handed gets each pending row once. -/
theorem polling_serves_once (hlimit : 0 < limit) (hok : LogOk s.db) : ServedOnce u D limit s := by
  obtain ⟨n, hdrains⟩ := drains_of_moves hlimit hok fun _ => moves_of_behind hlimit
  refine ⟨n, fun g hg x hx => ?_⟩
  obtain ⟨k, hk, hserved⟩ := hdrains g hg rfl x hx
  refine ⟨k, hk, fun j => ⟨fun hj => ?_, fun heq => heq ▸ hserved⟩⟩
  by_contra hne
  rcases lt_or_gt_of_ne hne with hlt | hlt
  · exact notMem_answer_of_served hlimit hg rfl hlt hj hserved
  · exact notMem_answer_of_served hlimit hg rfl hlt hserved hj

theorem polling_serves_once_crowded : ServedOnce 7 1 2 (crowded "hello") :=
  polling_serves_once (by decide) (logOk_of_rows (by decide +kernel))

end RcqServer.RoomLog
