import RcqServer.RoomLog.Pages
import Mathlib.Algebra.GroupWithZero.Nat

/-!
# What one page of room-log rows holds

The promise of `_fair_log_page` (`FairPage`): of every room a front piece of its rows, at most
`limit` rows in all, none only if there is none, everything if the page says that there is no more,
and less than twice `GROUP_LOG_PAGE_BYTES` of payload unless the page is one row that would not fit
an empty page.

The loop keeps two accounts (`Charged`).  The rows picked and `rowsLeft` add up to `limit`.  The
bytes picked and `bytesLeft` add up to the budget, plus the one row that has stretched it.  That
row fits an empty page, so a page holds at most twice the budget; it holds exactly twice the budget
when the charged rows use it up and the row that stretches it has as many bytes as the budget.
-/

namespace RcqServer.RoomLog

open ReadCommitted Messages List

/-- What the page builder charges for some rows. -/
def bytes (rows : List (ℤ × LogRow)) : ℕ :=
  (rows.map fun row => row.2.payload.length).sum

/-- The rows of a page, room after room. -/
def pageRows (picked : List (GroupId × List (ℤ × LogRow))) : List (ℤ × LogRow) :=
  picked.flatMap Prod.snd

/-- What a page is to be for rooms that are read from `starts`. -/
structure FairPage (db : Db) (u : Uin) (starts : List (GroupId × ℤ)) (limit : ℕ)
    (out : List (GroupId × List (ℤ × LogRow)) × Bool) : Prop where
  fronts : Forall₂ (fun x room => room.1 = x.1 ∧ room.2 <+: db.visibleRows u x.1 x.2)
    starts out.1
  ascending : ∀ room ∈ out.1, room.2.Pairwise fun a b => a.1 < b.1
  count : (pageRows out.1).length ≤ limit
  nonempty : (∃ x ∈ starts, db.visibleRows u x.1 x.2 ≠ []) → pageRows out.1 ≠ []
  complete : out.2 = false → out.1 = starts.map fun x => (x.1, db.visibleRows u x.1 x.2)
  size : bytes (pageRows out.1) < 2 * groupLogPageBytes ∨
    ∃ row, pageRows out.1 = [row] ∧ groupLogPageBytes < row.2.payload.length

/-! ## The accounts of the loop -/

section Charged

variable {sizes : ℕ → Prop} {limit i : ℕ} {page : Page} {room : Room}

/-- The rows that a page has picked. -/
def rowCount (rooms : List Room) : ℕ := (rooms.map fun room => room.picked.length).sum

/-- The bytes that a page has picked. -/
def byteCount (rooms : List Room) : ℕ := (rooms.map fun room => bytes room.picked).sum

/-- The accounts of a page whose rows have payloads of the given sizes. -/
structure Charged (sizes : ℕ → Prop) (limit : ℕ) (page : Page) : Prop where
  rows : rowCount page.rooms + page.rowsLeft = limit
  budget : ∃ extra, byteCount page.rooms + page.bytesLeft = groupLogPageBytes + extra ∧
    (extra = 0 ∨ page.stretched = true ∧ extra ≤ groupLogPageBytes ∧ sizes extra)
  waiting : ∀ room ∈ page.rooms, ∀ row ∈ room.buf, sizes row.2.payload.length

private theorem sum_map_set (f : Room → ℕ) (new : Room) {rooms : List Room}
    (hget : rooms[i]? = some room) :
    ((rooms.set i new).map f).sum + f room = (rooms.map f).sum + f new := by
  induction rooms generalizing i with
  | nil => simp at hget
  | cons first rooms ih =>
    cases i with
    | zero =>
      obtain rfl : first = room := by simpa using hget
      simp only [set_cons_zero, map_cons, sum_cons]
      omega
    | succ i =>
      have hrest := ih (i := i) (by simpa using hget)
      simp only [set_cons_succ, map_cons, sum_cons]
      omega

/-- A room that only loses its turn changes no account. -/
private theorem counts_turn (hget : page.rooms[i]? = some room) :
    rowCount (page.rooms.set i { room with turn := false }) = rowCount page.rooms ∧
      byteCount (page.rooms.set i { room with turn := false }) = byteCount page.rooms := by
  have hrows := sum_map_set (fun room => room.picked.length) { room with turn := false } hget
  have hbytes := sum_map_set (fun room => bytes room.picked) { room with turn := false } hget
  unfold rowCount byteCount
  exact ⟨by simpa using hrows, by simpa using hbytes⟩

variable {row : ℤ × LogRow} {tail : List (ℤ × LogRow)}

/-- A row that is picked counts once. -/
private theorem counts_pick (hget : page.rooms[i]? = some room) (hbuf : room.buf = row :: tail) :
    rowCount (page.rooms.set i room.pick) = rowCount page.rooms + 1 ∧
      byteCount (page.rooms.set i room.pick) = byteCount page.rooms + row.2.payload.length := by
  have hrows := sum_map_set (fun room => room.picked.length) room.pick hget
  have hbytes := sum_map_set (fun room => bytes room.picked) room.pick hget
  simp only [pick_picked hbuf, length_append, length_singleton] at hrows
  simp only [pick_picked hbuf, bytes, map_append, sum_append, map_singleton,
    sum_singleton] at hbytes
  unfold rowCount byteCount bytes
  exact ⟨by omega, by omega⟩

private theorem waiting_set (h : Charged sizes limit page) (hget : page.rooms[i]? = some room)
    {new : Room} (hnew : ∀ row ∈ new.buf, row ∈ room.buf) :
    ∀ room ∈ page.rooms.set i new, ∀ row ∈ room.buf, sizes row.2.payload.length := by
  intro other hother row hrow
  rcases mem_or_eq_of_mem_set hother with hold | rfl
  · exact h.waiting other hold row hrow
  · exact h.waiting room (mem_of_getElem? hget) row (hnew row hrow)

theorem Charged.serve (h : Charged sizes limit page) (hrows : page.rowsLeft ≠ 0)
    (hget : page.rooms[i]? = some room) : Charged sizes limit (page.serve i room) := by
  obtain ⟨extra, hbudget, hextra⟩ := h.budget
  have hlimit := h.rows
  cases hbuf : room.buf with
  | nil =>
    obtain ⟨hcount, hbytes⟩ := counts_turn hget
    rw [serve_empty hbuf]
    exact ⟨by simpa [hcount] using hlimit, ⟨extra, by simpa [hbytes] using hbudget, hextra⟩,
      waiting_set h hget fun _ hrow => hrow⟩
  | cons row tail =>
    have hsize : sizes row.2.payload.length :=
      h.waiting room (mem_of_getElem? hget) row (by simp [hbuf])
    have hpick : ∀ row ∈ room.pick.buf, row ∈ room.buf := by
      intro other hother
      simp only [Room.pick, hbuf] at hother
      simp [hbuf, hother]
    obtain ⟨hcount, hbytes⟩ := counts_pick hget hbuf
    rcases size_cases page room row with hbig | hstretch | hfits
    · obtain ⟨hcount, hbytes⟩ := counts_turn hget
      rw [serve_tooBig hbuf hbig]
      exact ⟨by simpa [hcount] using hlimit, ⟨extra, by simpa [hbytes] using hbudget, hextra⟩,
        waiting_set h hget fun _ hrow => hrow⟩
    · -- the row that stretches the budget is the first to do so
      rw [serve_stretch hbuf hstretch]
      have hfirst := hstretch.2
      simp only [not_or, Bool.not_eq_true, not_lt] at hfirst
      obtain ⟨-, hnot, hle⟩ := hfirst
      obtain rfl : extra = 0 := hextra.resolve_right fun h => by simp [hnot] at h
      refine ⟨?_, ⟨row.2.payload.length, ?_, .inr ⟨rfl, hle, hsize⟩⟩,
        waiting_set h hget hpick⟩
      · dsimp only
        omega
      · dsimp only
        omega
    · rw [serve_fits hbuf hfits]
      refine ⟨?_, ⟨extra, ?_, hextra⟩, waiting_set h hget hpick⟩
      · dsimp only
        omega
      · dsimp only
        omega

variable {db : Db} {u : Uin} {starts : List (GroupId × ℤ)}

theorem charged_start
    (hsizes : ∀ x ∈ starts, ∀ row ∈ db.visibleRows u x.1 x.2, sizes row.2.payload.length) :
    Charged sizes limit (wholeStart db u starts limit) where
  rows := by simp [rowCount, wholeStart, Page.initial, Function.comp_def]
  budget := ⟨0, by simp [byteCount, bytes, wholeStart, Page.initial, Function.comp_def], .inl rfl⟩
  waiting := by
    intro room hroom
    obtain ⟨x, hx, rfl⟩ := mem_map.mp hroom
    exact hsizes x hx

theorem charged_rounds {fuel : ℕ}
    (hsizes : ∀ x ∈ starts, ∀ row ∈ db.visibleRows u x.1 x.2, sizes row.2.payload.length) :
    Charged sizes limit (rounds fuel (wholeStart db u starts limit)) :=
  rounds_inv (charged_start hsizes) fun _ _ _ h hrows hget _ _ => h.serve hrows hget

end Charged

/-! ## The page that goes out -/

section Page

variable {page : Page} {rooms : List Room}

/-- The rows picked in some rooms. -/
def pickedRows (rooms : List Room) : List (ℤ × LogRow) := rooms.flatMap Room.picked

theorem length_pickedRows (rooms : List Room) : (pickedRows rooms).length = rowCount rooms := by
  simp [pickedRows, rowCount, length_flatMap]

theorem bytes_pickedRows (rooms : List Room) : bytes (pickedRows rooms) = byteCount rooms := by
  induction rooms with
  | nil => rfl
  | cons room rooms ih =>
    simp only [pickedRows, byteCount, bytes, flatMap_cons, map_append, sum_append,
      map_cons, sum_cons] at ih ⊢
    omega

/-- Nothing but the row at hand in one of the rooms. -/
theorem pickedRows_set_pick {i : ℕ} {room : Room} {row : ℤ × LogRow} {tail : List (ℤ × LogRow)}
    (hnone : ∀ room ∈ rooms, room.picked = []) (hget : rooms[i]? = some room)
    (hbuf : room.buf = row :: tail) : pickedRows (rooms.set i room.pick) = [row] := by
  unfold pickedRows
  induction rooms generalizing i with
  | nil => simp at hget
  | cons first rooms ih =>
    have hrest : ∀ room ∈ rooms, room.picked = [] :=
      fun room hroom => hnone room (mem_cons_of_mem _ hroom)
    cases i with
    | zero =>
      obtain rfl : first = room := by simpa using hget
      have hothers : rooms.flatMap Room.picked = [] := flatMap_eq_nil_iff.mpr hrest
      simp [pick_picked hbuf, hnone first, hothers]
    | succ i =>
      have hfirst : first.picked = [] := hnone first (by simp)
      simp only [set_cons_succ, flatMap_cons, hfirst, nil_append]
      exact ih hrest (by simpa using hget)

/-- The last step adds a row to an empty page only. -/
theorem alone_rooms (page : Page) : page.alone.rooms = page.rooms ∨
    ∃ row, pickedRows page.rooms = [] ∧ pickedRows page.alone.rooms = [row] := by
  by_cases hnone : ∀ room ∈ page.rooms, room.picked = []
  swap
  · left
    unfold Page.alone
    rw [if_neg]
    simpa using hnone
  unfold Page.alone
  rw [if_pos (by simpa using hnone)]
  split
  · exact .inl rfl
  split
  · exact .inl rfl
  rename_i i _ room hget
  cases hbuf : room.buf with
  | nil =>
    left
    have hsame : room.pick = room := by
      unfold Room.pick
      rw [hbuf]
    obtain ⟨hlt, rfl⟩ := List.getElem?_eq_some_iff.mp hget
    rw [hsame]
    exact set_getElem_self hlt
  | cons row tail =>
    exact .inr ⟨row, flatMap_eq_nil_iff.mpr hnone, pickedRows_set_pick hnone hget hbuf⟩

variable {db : Db} {u : Uin} {starts : List (GroupId × ℤ)} {limit : ℕ} {sizes : ℕ → Prop}

theorem rowCount_fullPage (hlimit : 0 < limit) :
    (pickedRows (fullPage db u starts limit).rooms).length ≤ limit := by
  have hcharged : Charged (fun _ => True) limit
      (rounds (limit + starts.length) (wholeStart db u starts limit)) :=
    charged_rounds fun _ _ _ _ => trivial
  rcases alone_rooms (rounds (limit + starts.length) (wholeStart db u starts limit)) with
    hsame | ⟨row, -, hone⟩
  · rw [fullPage, hsame, length_pickedRows]
    have := hcharged.rows
    omega
  · rw [fullPage, hone]
    exact hlimit

/-- If no row has exactly as many bytes as the budget, the page stays under twice the budget. -/
theorem bytes_fullPage
    (hsizes : ∀ x ∈ starts, ∀ row ∈ db.visibleRows u x.1 x.2, sizes row.2.payload.length)
    (hbudget : ¬sizes groupLogPageBytes) :
    bytes (pickedRows (fullPage db u starts limit).rooms) < 2 * groupLogPageBytes ∨
      ∃ row, pickedRows (fullPage db u starts limit).rooms = [row] ∧
        groupLogPageBytes < row.2.payload.length := by
  have hpos : 0 < groupLogPageBytes := by decide
  have hcharged : Charged sizes limit
      (rounds (limit + starts.length) (wholeStart db u starts limit)) := charged_rounds hsizes
  rcases alone_rooms (rounds (limit + starts.length) (wholeStart db u starts limit)) with
    hsame | ⟨row, -, hone⟩
  · left
    rw [fullPage, hsame, bytes_pickedRows]
    obtain ⟨extra, hsum, hzero | ⟨-, hle, hextra⟩⟩ := hcharged.budget
    · omega
    · have hne : extra ≠ groupLogPageBytes := by
        rintro rfl
        exact hbudget hextra
      omega
  · rw [fullPage, hone]
    by_cases hbig : groupLogPageBytes < row.2.payload.length
    · exact .inr ⟨row, rfl, hbig⟩
    · left
      simp only [bytes, map_singleton, sum_singleton]
      omega

theorem pageRows_result (rooms : List Room) :
    pageRows (rooms.map fun room => (room.gid, room.picked)) = pickedRows rooms := by
  simp [pageRows, pickedRows, flatMap_map]

/-- Of every room a front piece, in the order of `starts`. -/
theorem fronts_fullPage (starts : List (GroupId × ℤ)) (limit : ℕ) :
    Forall₂ (fun x room => room.1 = x.1 ∧ room.2 <+: db.visibleRows u x.1 x.2) starts
      ((fullPage db u starts limit).rooms.map fun room => (room.gid, room.picked)) := by
  have hcontents : (fullPage db u starts limit).rooms.map contents =
      starts.map fun x => (x.1, db.visibleRows u x.1 x.2) := contents_fullPage starts limit
  rw [forall₂_map_right_iff]
  generalize (fullPage db u starts limit).rooms = rooms at hcontents
  induction rooms generalizing starts with
  | nil =>
    obtain rfl : starts = [] := by simpa using hcontents
    exact .nil
  | cons room rooms ih =>
    cases starts with
    | nil => simp at hcontents
    | cons x starts =>
      simp only [map_cons, cons.injEq] at hcontents
      obtain ⟨hroom, hrest⟩ := hcontents
      obtain ⟨hgid, hrows⟩ := Prod.mk.inj hroom
      exact .cons ⟨hgid, ⟨room.buf, hrows⟩⟩ (ih starts hrest)

theorem ascending_fullPage {room : Room} (hroom : room ∈ (fullPage db u starts limit).rooms) :
    room.picked.Pairwise fun a b => a.1 < b.1 := by
  have hmem : contents room ∈ starts.map fun x => (x.1, db.visibleRows u x.1 x.2) := by
    rw [← contents_fullPage starts limit]
    exact mem_map.mpr ⟨room, hroom, rfl⟩
  obtain ⟨x, -, hx⟩ := mem_map.mp hmem
  have hrows : db.visibleRows u x.1 x.2 = room.picked ++ room.buf := congrArg Prod.snd hx
  have hpairwise := visibleRows_pairwise db u x.1 x.2
  rw [hrows] at hpairwise
  exact (pairwise_append.mp hpairwise).1

/-- If nothing is left at hand, the page holds every row. -/
theorem complete_fullPage (hempty : ∀ room ∈ (fullPage db u starts limit).rooms, room.buf = []) :
    (fullPage db u starts limit).rooms.map (fun room => (room.gid, room.picked)) =
      starts.map fun x => (x.1, db.visibleRows u x.1 x.2) := by
  rw [← contents_fullPage starts limit]
  refine map_congr_left fun room hroom => ?_
  simp [contents, hempty room hroom]

end Page

/-! ## The promise, and the one row that breaks it -/

/-- What `_fair_log_page` answers when it is served alone. -/
theorem exec_fairLogPage (s : State) (u : Uin) (starts : List (GroupId × ℤ)) {limit : ℕ}
    (hlimit : 0 < limit) : ∃ more, (fairLogPage u starts limit).exec s =
      (.ok ((fullPage s.db u starts limit).rooms.map (fun room => (room.gid, room.picked)), more),
        s) ∧ (more = false → ∀ room ∈ (fullPage s.db u starts limit).rooms, room.buf = []) := by
  have hwlp := @wlp_fairLogPage u limit [] s starts hlimit
  obtain ⟨out, s', hexec, ws, ⟨-, rfl⟩, hpicked, hmore⟩ := Prog.exec_eq_ok hwlp
  rw [Shared.view_nil] at hpicked hmore
  refine ⟨out.2, by rw [hexec, ← hpicked], fun hnone room hroom => ?_⟩
  by_contra hbuf
  simp [hmore ⟨room, hroom, hbuf⟩] at hnone

theorem fairPage_of_sizes {sizes : ℕ → Prop} (hbudget : ¬sizes groupLogPageBytes) (s : State)
    (u : Uin) (starts : List (GroupId × ℤ)) {limit : ℕ} (hlimit : 0 < limit)
    (hsizes : ∀ r ∈ s.db.groupLog.rows, sizes r.2.payload.length) :
    ∃ out, (fairLogPage u starts limit).exec s = (.ok out, s) ∧
      FairPage s.db u starts limit out := by
  have hvisible : ∀ x ∈ starts, ∀ row ∈ s.db.visibleRows u x.1 x.2,
      sizes row.2.payload.length := by
    intro x _ row hrow
    exact hsizes ((x.1, row.1), row.2) (Table.mem_rows.mpr (mem_visibleRows.mp hrow).1)
  obtain ⟨more, hexec, hmore⟩ := exec_fairLogPage s u starts hlimit
  refine ⟨_, hexec, ?_⟩
  refine
    { fronts := fronts_fullPage starts limit
      ascending := ?_
      count := ?_
      nonempty := ?_
      complete := fun h => complete_fullPage (hmore h)
      size := ?_ }
  · intro room hroom
    obtain ⟨full, hfull, rfl⟩ := mem_map.mp hroom
    exact ascending_fullPage hfull
  · rw [pageRows_result]
    exact rowCount_fullPage hlimit
  · rintro ⟨x, hx, hrows⟩
    obtain ⟨room, hroom, hpicked⟩ := exists_picked_fullPage hlimit hx hrows
    rw [pageRows_result]
    exact fun hnil => hpicked (flatMap_eq_nil_iff.mp hnil room hroom)
  · rw [pageRows_result]
    exact bytes_fullPage hvisible hbudget

/-- A row for everybody with the given payload. -/
def plainRow (payload : String) : LogRow := ⟨none, .gmsg, 1, payload, 0⟩

/-- Rooms 1 and 2 have one row each, with the same payload. -/
def twins (payload : String) : State where
  db := { Db.empty ∅ ∅ ∅ with
    groupLog := ((∅ : Table (GroupId × ℤ) LogRow).set (1, 1) (some (plainRow payload))).set (2, 1)
      (some (plainRow payload)) }
  ext := Ext.initial 0
  hist := []

theorem visibleRows_twins (payload : String) (g : GroupId) (hg : g = 1 ∨ g = 2) :
    (twins payload).db.visibleRows 7 g 0 = [(1, plainRow payload)] := by
  rcases hg with rfl | rfl
  · rfl
  · rfl

/-- The first of the two rows uses up the budget, the second stretches it. -/
theorem pickedRows_twins {payload : String} (hsize : payload.length = groupLogPageBytes) :
    pickedRows (fullPage (twins payload).db 7 [(1, 0), (2, 0)] 2).rooms =
      [(1, plainRow payload), (1, plainRow payload)] := by
  have hpos : groupLogPageBytes ≠ 0 := by decide
  have hrow : (plainRow payload).payload.length = groupLogPageBytes := hsize
  -- the rooms before their turn and after it
  let before (g : GroupId) : Room := ⟨g, [(1, plainRow payload)], 0, false, [], 0, true⟩
  let after (g : GroupId) : Room :=
    ⟨g, [], 0, false, [(1, plainRow payload)], groupLogPageBytes, true⟩
  have hpick : ∀ g, (before g).pick = after g := by
    intro g
    simp [before, after, Room.pick, hrow]
  have hstart : wholeStart (twins payload).db 7 [(1, 0), (2, 0)] 2 =
      ⟨[before 1, before 2], 2, groupLogPageBytes, [], false⟩ := by
    simp [wholeStart, Page.initial, before, visibleRows_twins]
  have hfirst : Page.serve ⟨[before 1, before 2], 2, groupLogPageBytes, [], false⟩ 0 (before 1) =
      ⟨[after 1, before 2], 1, 0, [], false⟩ := by
    have hbuf : (before 1).buf = (1, plainRow payload) :: [] := rfl
    rw [serve_fits hbuf (by rw [hrow])]
    simp [hpick, hrow]
  have hsecond : Page.serve ⟨[after 1, before 2], 1, 0, [], false⟩ 1 (before 2) =
      ⟨[after 1, after 2], 0, 0, [], true⟩ := by
    have hbuf : (before 2).buf = (1, plainRow payload) :: [] := rfl
    rw [serve_stretch hbuf]
    · simp [hpick]
    · simp only [Stretches, hrow]
      exact ⟨Nat.pos_of_ne_zero hpos, by simp [before]⟩
  have hrounds : rounds 4 (wholeStart (twins payload).db 7 [(1, 0), (2, 0)] 2) =
      ⟨[after 1, after 2], 0, 0, [], true⟩ := by
    have hleast : leastTurn [before 1, before 2] = some (0, 0) := rfl
    have hleast' : leastTurn [after 1, before 2] = some (1, 0) := by
      simp [leastTurn, before, after, hpos]
    rw [hstart, rounds_of_turn (by simp) hleast rfl, hfirst,
      rounds_of_turn (by simp) hleast' rfl, hsecond, rounds_of_done (.inl rfl)]
  rw [fullPage, length_cons, length_singleton, hrounds]
  rfl

end RcqServer.RoomLog
