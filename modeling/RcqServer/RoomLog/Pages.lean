import RcqServer.ReadCommitted.Serial
import RcqServer.RoomLog.Reading

/-!
# Pages of a log that stands still

`_fair_log_page` reads its rooms lazily, a chunk at a time.  Served alone it picks the rows that it
would pick if every room had been read in whole at once: `rounds` is its loop without the reads,
`whole` completes a room by the rows that no read has brought in yet, and `wlp_fairLogPage` says
that the answer is that of `fullPage`.

What a page does to a room is then a fact about lists: rows move one by one from the front of
`buf` to the end of `picked` (`contents_fullPage`), and a page comes back empty only if there was
nothing to pick (`exists_picked_fullPage`).
-/

namespace RcqServer.RoomLog

open ReadCommitted Messages List

variable {db : Db} {u : Uin} {g : GroupId} {page : Page} {i given : ℕ} {room new : Room}
  {row : ℤ × LogRow} {tail : List (ℤ × LogRow)}

/-! ## The rows of a room, in order -/

private theorem eq_of_mem_iff {l l' : List (ℤ × LogRow)} (hl : l.Pairwise fun a b => a.1 < b.1)
    (hl' : l'.Pairwise fun a b => a.1 < b.1) (hmem : ∀ x, x ∈ l ↔ x ∈ l') : l = l' := by
  have hnodup : ∀ {l : List (ℤ × LogRow)}, (l.Pairwise fun a b => a.1 < b.1) → l.Nodup :=
    fun h => h.imp fun hlt heq => by simp [heq] at hlt
  have hperm : l.Perm l' := (perm_ext_iff_of_nodup (hnodup hl) (hnodup hl')).mpr hmem
  exact hperm.eq_of_pairwise (fun a b _ _ hab hba => absurd (hab.trans hba) (lt_irrefl _)) hl hl'

/-- The rows that a room serves come in the order of their sequences. -/
theorem visibleRows_pairwise (db : Db) (u : Uin) (g : GroupId) (start : ℤ) :
    (db.visibleRows u g start).Pairwise fun a b => a.1 < b.1 := by
  have : Std.Total fun a b : ℤ × LogRow => a.1 ≤ b.1 := ⟨fun a b => le_total a.1 b.1⟩
  have : IsTrans (ℤ × LogRow) fun a b => a.1 ≤ b.1 := ⟨fun _ _ _ hab hbc => hab.trans hbc⟩
  have hle : (db.visibleRows u g start).Pairwise fun a b => a.1 ≤ b.1 :=
    pairwise_insertionSort _ _
  have hne : (db.visibleRows u g start).Pairwise fun a b => a.1 ≠ b.1 := by
    refine (Perm.pairwise_iff (fun h => h.symm) (perm_insertionSort _ _)).mpr ?_
    rw [pairwise_map]
    have hkeys : (db.groupLog.select fun k row =>
        k.1 == g && start < k.2 && row.toUin.all (· == u)).Pairwise fun a b => a.1 ≠ b.1 :=
      (pairwise_map.mp db.groupLog.rows_keys_nodup).filter _
    refine hkeys.imp_of_mem fun {a b} ha hb hab heq => hab ?_
    have hroom : ∀ x ∈ db.groupLog.select (fun k row =>
        k.1 == g && start < k.2 && row.toUin.all (· == u)), x.1.1 = g := by
      rintro ⟨k, row⟩ hx
      have hsel := (Table.mem_select.mp hx).2
      simp only [Bool.and_eq_true, beq_iff_eq] at hsel
      exact hsel.1.1
    exact Prod.ext ((hroom a ha).trans (hroom b hb).symm) heq
  exact hle.imp₂ (fun _ _ hab hne => lt_of_le_of_ne hab hne) hne

/-- Reading on from a later position leaves out the rows up to it. -/
theorem visibleRows_of_le {start later : ℤ} (hle : start ≤ later) : db.visibleRows u g later =
      (db.visibleRows u g start).filter fun x => decide (later < x.1) := by
  refine eq_of_mem_iff (visibleRows_pairwise db u g later)
    ((visibleRows_pairwise db u g start).filter _) fun ⟨seq, row⟩ => ?_
  rw [mem_filter, mem_visibleRows, mem_visibleRows, decide_eq_true_eq]
  constructor
  · rintro ⟨hget, hlt, hvisible⟩
    exact ⟨⟨hget, by omega, hvisible⟩, hlt⟩
  · rintro ⟨⟨hget, -, hvisible⟩, hlt⟩
    exact ⟨hget, hlt, hvisible⟩

/-- In an ordered list, what lies beyond one of its rows is what follows it. -/
private theorem filter_append_of_pairwise {l tail : List (ℤ × LogRow)} {x : ℤ × LogRow}
    (hpairwise : (l ++ x :: tail).Pairwise fun a b => a.1 < b.1) :
    (l ++ x :: tail).filter (fun y => decide (x.1 < y.1)) = tail := by
  obtain ⟨-, htail, hbefore⟩ := pairwise_append.mp hpairwise
  have hl : l.filter (fun y => decide (x.1 < y.1)) = [] := by
    refine filter_eq_nil_iff.mpr fun y hy => ?_
    have := hbefore y hy x mem_cons_self
    simp only [decide_eq_true_eq]
    omega
  have htail' : tail.filter (fun y => decide (x.1 < y.1)) = tail :=
    filter_eq_self.mpr fun y hy => decide_eq_true (rel_of_pairwise_cons htail hy)
  rw [filter_append, filter_cons_of_neg (by simp), hl, htail', nil_append]

/-- A read that goes on after the rows it has got brings in the rows after them. -/
theorem visibleRows_after {start : ℤ} {got tail : List (ℤ × LogRow)} {x : ℤ × LogRow}
    (hrows : db.visibleRows u g start = got ++ x :: tail) : db.visibleRows u g x.1 = tail := by
  have hmem : x ∈ db.visibleRows u g start := by simp [hrows]
  obtain ⟨-, hlt, -⟩ := mem_visibleRows.mp hmem
  have hpairwise := visibleRows_pairwise db u g start
  rw [visibleRows_of_le hlt.le, hrows]
  rw [hrows] at hpairwise
  exact filter_append_of_pairwise hpairwise

/-! ## The loop without its reads -/

/-- The loop of `_fair_log_page` over rooms that have been read in whole. -/
def rounds : ℕ → Page → Page
  | 0, page => page
  | fuel + 1, page =>
    if page.rowsLeft = 0 then page
    else match leastTurn page.rooms with
      | none => page
      | some (i, _) =>
        match page.rooms[i]? with
        | none => page
        | some room => rounds fuel (page.serve i room)

/-- No room gets another turn. -/
def Done (page : Page) : Prop :=
  page.rowsLeft = 0 ∨ leastTurn page.rooms = none

variable {fuel limit chunk : ℕ} {rooms : List Room} {f : ℕ → ℕ} {l : List ℕ}

theorem rounds_of_done (hdone : Done page) : rounds fuel page = page := by
  cases fuel with
  | zero => rfl
  | succ fuel =>
    unfold rounds
    rcases hdone with hrows | hleast
    · rw [if_pos hrows]
    · rw [hleast, ite_self]

theorem rounds_of_turn (hrows : page.rowsLeft ≠ 0)
    (hleast : leastTurn page.rooms = some (i, given)) (hget : page.rooms[i]? = some room) :
    rounds (fuel + 1) page = rounds fuel (page.serve i room) := by
  rw [rounds, if_neg hrows, hleast]
  simp only [hget]

/-- The rows of a room that are not picked yet, read or not. -/
def rest (db : Db) (u : Uin) (room : Room) : List (ℤ × LogRow) :=
  if room.unread then room.buf ++ db.visibleRows u room.gid room.readTo else room.buf

/-- The room, read in whole. -/
def whole (db : Db) (u : Uin) (room : Room) : Room :=
  { room with buf := rest db u room, readTo := 0, unread := false }

def wholePage (db : Db) (u : Uin) (page : Page) : Page :=
  { page with rooms := page.rooms.map (whole db u) }

theorem wholePage_get (hget : page.rooms[i]? = some room) :
    (wholePage db u page).rooms[i]? = some (whole db u room) := by
  simp [wholePage, hget]

theorem leastTurn_map_whole (rooms : List Room) :
    leastTurn (rooms.map (whole db u)) = leastTurn rooms := by
  induction rooms with
  | nil => rfl
  | cons room rooms ih => simp only [map_cons, leastTurn, ih, whole]

/-- The room has rows at hand if it has any. -/
def Ready (db : Db) (u : Uin) (room : Room) : Prop :=
  room.buf = [] → rest db u room = []

theorem whole_buf (hbuf : room.buf = row :: tail) :
    (whole db u room).buf = row :: rest db u { room with buf := tail } := by
  unfold whole rest
  rw [hbuf]
  split <;> rfl

/-- Picking the next row commutes with reading the room in whole. -/
theorem whole_pick (hready : Ready db u room) :
    whole db u room.pick = (whole db u room).pick := by
  cases hbuf : room.buf with
  | nil =>
    have hrest : (whole db u room).buf = [] := hready hbuf
    simp only [Room.pick, hbuf, hrest]
  | cons row tail =>
    simp only [Room.pick, hbuf, whole_buf hbuf]
    rfl

/-- A round serves the same row whether or not the room has been read in whole. -/
theorem wholePage_serve (hready : Ready db u room) :
    wholePage db u (page.serve i room) = (wholePage db u page).serve i (whole db u room) := by
  cases hbuf : room.buf with
  | nil =>
    have hrest : (whole db u room).buf = [] := hready hbuf
    rw [serve_empty hbuf, serve_empty hrest]
    simp only [wholePage, map_set]
    rfl
  | cons row tail =>
    rcases size_cases page room row with hbig | hstretch | hfits
    · have hbig' : TooBig (wholePage db u page) (whole db u room) row := hbig
      rw [serve_tooBig hbuf hbig, serve_tooBig (whole_buf hbuf) hbig']
      simp only [wholePage, map_set]
      rfl
    · have hstretch' : Stretches (wholePage db u page) (whole db u room) row := hstretch
      rw [serve_stretch hbuf hstretch, serve_stretch (whole_buf hbuf) hstretch']
      simp only [wholePage, map_set, whole_pick hready]
    · have hfits' : row.2.payload.length ≤ (wholePage db u page).bytesLeft := hfits
      rw [serve_fits hbuf hfits, serve_fits (whole_buf hbuf) hfits']
      simp only [wholePage, map_set, whole_pick hready]

/-- A read neither adds to the rows that are left nor takes from them. -/
theorem whole_refill (hchunk : 0 < chunk) (hbuf : room.buf = []) (hunread : room.unread) :
    whole db u (room.refill chunk ((db.visibleRows u room.gid room.readTo).take chunk)) =
        whole db u room ∧
      Ready db u (room.refill chunk ((db.visibleRows u room.gid room.readTo).take chunk)) := by
  set rows := db.visibleRows u room.gid room.readTo with hrows
  have hwhole : rest db u room = rows := by
    rw [rest, if_pos hunread, hbuf, nil_append]
  have hrefill : rest db u (room.refill chunk (rows.take chunk)) = rows := by
    simp only [rest, Room.refill, hbuf, nil_append, beq_iff_eq]
    split
    · rename_i hfull
      -- the read came back full: what it left out lies beyond its last row
      rw [length_take] at hfull
      have hne : rows.take chunk ≠ [] := by
        intro hnil
        have : (rows.take chunk).length = 0 := by rw [hnil, length_nil]
        rw [length_take] at this
        omega
      obtain ⟨before, last, hlast⟩ := eq_nil_or_concat (rows.take chunk) |>.resolve_left hne
      have hsplit : rows = before ++ last :: rows.drop chunk := by
        conv_lhs => rw [← take_append_drop chunk rows, hlast]
        simp
      rw [hlast]
      simp only [concat_eq_append, getLast?_append, getLast?_singleton,
        Option.some_or, Option.map_some, Option.getD_some]
      rw [visibleRows_after (hrows.symm.trans hsplit)]
      simpa using hsplit.symm
    · rename_i hshort
      rw [length_take] at hshort
      exact take_of_length_le (by omega)
  refine ⟨?_, fun hnil => ?_⟩
  · simp only [whole, hrefill, hwhole]
    rfl
  · rw [hrefill]
    have hnil' : rows.take chunk = [] := by simpa [Room.refill, hbuf] using hnil
    exact (take_eq_nil_iff.mp hnil').resolve_left (by omega)

/-! ## The answer of a page, served alone -/

/-- The rooms whose next row did not fit are done, and have that row at hand. -/
def Waiting (page : Page) : Prop :=
  ∀ i ∈ page.tooBig, ∃ room, page.rooms[i]? = some room ∧ room.turn = false ∧ room.buf ≠ []

theorem turn_of_leastTurn (hleast : leastTurn rooms = some (i, given)) :
    ∃ room, rooms[i]? = some room ∧ room.turn = true ∧ room.given = given := by
  induction rooms generalizing i given with
  | nil => simp [leastTurn] at hleast
  | cons room rooms ih =>
    unfold leastTurn at hleast
    split at hleast
    · split at hleast
      · rename_i hturn
        simp only [Option.some.injEq, Prod.mk.injEq] at hleast
        obtain ⟨rfl, rfl⟩ := hleast
        exact ⟨room, rfl, hturn, rfl⟩
      · simp at hleast
    · rename_i j given' hrest
      split at hleast
      · rename_i hturn
        simp only [Option.some.injEq, Prod.mk.injEq] at hleast
        obtain ⟨rfl, rfl⟩ := hleast
        exact ⟨room, rfl, hturn.1, rfl⟩
      · simp only [Option.some.injEq, Prod.mk.injEq] at hleast
        obtain ⟨rfl, rfl⟩ := hleast
        exact ih hrest

theorem Waiting.serve {page : Page} {i : ℕ} {old room : Room} (h : Waiting page)
    (hget : page.rooms[i]? = some old) (hturn : old.turn = true) : Waiting (page.serve i room) := by
  have hlength : i < page.rooms.length := (List.getElem?_eq_some_iff.mp hget).1
  have hset : ∀ (new : Room), ∀ j ∈ page.tooBig, ∃ room,
      (page.rooms.set i new)[j]? = some room ∧ room.turn = false ∧ room.buf ≠ [] := by
    intro new j hj
    obtain ⟨room, hroom, hoff, hbuf⟩ := h j hj
    have hne : i ≠ j := by
      rintro rfl
      rw [hget] at hroom
      cases hroom
      simp [hoff] at hturn
    exact ⟨room, by rw [getElem?_set_ne hne, hroom], hoff, hbuf⟩
  refine serve_elim (fun _ => hset _) (fun row tail hbuf _ => ?_) fun _ _ _ _ _ => hset _
  refine forall_mem_append.mpr ⟨hset _, forall_mem_singleton.mpr ?_⟩
  exact ⟨_, getElem?_set_self hlength, rfl, by simp [hbuf]⟩

variable {ws : List Write} {s : State}

theorem wlp_load (hchunk : 0 < chunk) : (room.load u chunk).wlp (fun _ => False)
      (fun room' ws' s' => (ws' = ws ∧ s' = s) ∧
        whole (s.view ws) u room' = whole (s.view ws) u room ∧ Ready (s.view ws) u room') ws s := by
  unfold Room.load
  split
  · rename_i hread
    exact ⟨⟨by simp, rfl⟩, whole_refill hchunk hread.1 hread.2⟩
  · rename_i hread
    refine ⟨⟨rfl, rfl⟩, rfl, fun hbuf => ?_⟩
    have hunread : ¬room.unread = true := fun h => hread ⟨hbuf, h⟩
    rw [rest, if_neg hunread, hbuf]

/-- The loop picks what it would pick from rooms that have been read in whole. -/
theorem wlp_pageLoop (hchunk : 0 < chunk) (hwaiting : Waiting page) :
    (pageLoop u chunk fuel page).wlp (fun _ => False)
      (fun page' ws' s' => (ws' = ws ∧ s' = s) ∧ Waiting page' ∧
        wholePage (s.view ws) u page' = rounds fuel (wholePage (s.view ws) u page)) ws s := by
  induction fuel generalizing page with
  | zero => exact ⟨⟨rfl, rfl⟩, hwaiting, rfl⟩
  | succ fuel ih =>
    have hleast : leastTurn (wholePage (s.view ws) u page).rooms = leastTurn page.rooms :=
      leastTurn_map_whole page.rooms
    unfold pageLoop
    split
    · rename_i hrows
      have hdone : Done (wholePage (s.view ws) u page) := .inl hrows
      exact ⟨⟨rfl, rfl⟩, hwaiting, (rounds_of_done hdone).symm⟩
    rename_i hrows
    have hrows' : (wholePage (s.view ws) u page).rowsLeft ≠ 0 := hrows
    split
    · rename_i hnone
      exact ⟨⟨rfl, rfl⟩, hwaiting, (rounds_of_done (.inr (hleast.trans hnone))).symm⟩
    rename_i i given hturn
    obtain ⟨room, hget, hon, -⟩ := turn_of_leastTurn hturn
    rw [hget]
    refine Prog.wlp_seq (wlp_load hchunk) ?_
    rintro room' _ _ ⟨⟨rfl, rfl⟩, hwhole, hready⟩
    refine Prog.wlp_mono (ih (hwaiting.serve hget hon)) ?_
    rintro page' _ _ ⟨hsame, hwaiting', heq⟩
    refine ⟨hsame, hwaiting', ?_⟩
    rw [heq, wholePage_serve hready, hwhole, rounds_of_turn hrows' (hleast.trans hturn)
      (wholePage_get hget)]

theorem nextSize_wholePage (hwaiting : Waiting page) (hi : i ∈ page.tooBig) :
    (wholePage db u page).nextSize i = page.nextSize i := by
  obtain ⟨room, hget, -, hbuf⟩ := hwaiting i hi
  obtain ⟨row, tail, hcons⟩ := exists_cons_of_ne_nil hbuf
  simp [Page.nextSize, hget, wholePage_get hget, hcons, whole_buf hcons]

/-- One step of the search for the room with the smallest next row. -/
private abbrev smaller (f : ℕ → ℕ) (best : Option ℕ) (i : ℕ) : Option ℕ :=
  match best with
  | none => some i
  | some j => if f i < f j ∨ (f i = f j ∧ i < j) then some i else some j

private theorem foldl_smaller_congr {f' : ℕ → ℕ} (hf : ∀ i ∈ l, f i = f' i) (best : Option ℕ)
    (hbest : ∀ i ∈ best, f i = f' i) : l.foldl (smaller f) best = l.foldl (smaller f') best := by
  induction l generalizing best with
  | nil => rfl
  | cons i l ih =>
    have hi := hf i mem_cons_self
    have hl : ∀ j ∈ l, f j = f' j := fun j hj => hf j (mem_cons_of_mem _ hj)
    rw [foldl_cons, foldl_cons]
    cases best with
    | none => exact ih hl _ (by simpa using hi)
    | some j =>
      have hj := hbest j rfl
      simp only [smaller, hi, hj]
      refine ih hl _ fun k hk => ?_
      split at hk
      · cases hk
        exact hi
      · cases hk
        exact hj

theorem smallest_wholePage (hwaiting : Waiting page) :
    (wholePage db u page).smallest = page.smallest :=
  foldl_smaller_congr (fun _ hi => nextSize_wholePage hwaiting hi) none (by simp)

private theorem foldl_smaller_mem {best : Option ℕ} {k : ℕ}
    (hk : l.foldl (smaller f) best = some k) : k ∈ l ∨ best = some k := by
  induction l generalizing best with
  | nil => exact .inr hk
  | cons i l ih =>
    rw [foldl_cons] at hk
    rcases ih hk with hmem | hbest
    · exact .inl (mem_cons_of_mem _ hmem)
    · unfold smaller at hbest
      split at hbest
      · cases hbest
        exact .inl mem_cons_self
      · split at hbest
        · cases hbest
          exact .inl mem_cons_self
        · exact .inr hbest

theorem mem_tooBig_of_smallest (hi : page.smallest = some i) :
    i ∈ page.tooBig :=
  (foldl_smaller_mem hi).resolve_right (by simp)

theorem wholePage_alone (hwaiting : Waiting page) :
    wholePage db u page.alone = (wholePage db u page).alone := by
  have hall : ((wholePage db u page).rooms.all fun room => room.picked.isEmpty) =
      page.rooms.all fun room => room.picked.isEmpty := by
    simp only [wholePage, all_map]
    rfl
  unfold Page.alone
  rw [hall, smallest_wholePage hwaiting]
  split
  · cases hsmallest : page.smallest with
    | none => rfl
    | some i =>
      obtain ⟨room, hget, -, hbuf⟩ := hwaiting i (mem_tooBig_of_smallest hsmallest)
      have hready : Ready db u room := fun h => absurd h hbuf
      simp only [hget, wholePage_get hget]
      simp only [wholePage, map_set, whole_pick hready]
  · rfl

/-- The page before its first round, with every room read in whole. -/
def wholeStart (db : Db) (u : Uin) (starts : List (GroupId × ℤ)) (limit : ℕ) : Page :=
  { Page.initial starts limit with
    rooms := starts.map fun x => ⟨x.1, db.visibleRows u x.1 x.2, 0, false, [], 0, true⟩ }

/-- The page that `_fair_log_page` builds, with every room read in whole. -/
def fullPage (db : Db) (u : Uin) (starts : List (GroupId × ℤ)) (limit : ℕ) : Page :=
  (rounds (limit + starts.length) (wholeStart db u starts limit)).alone

theorem wholePage_initial (starts : List (GroupId × ℤ)) (limit : ℕ) :
    wholePage db u (.initial starts limit) = wholeStart db u starts limit := by
  simp [wholePage, Page.initial, wholeStart, whole, rest]

theorem chunkFor_pos {rooms : ℕ} (hlimit : 0 < limit) : 0 < chunkFor limit rooms := by
  unfold chunkFor groupLogRoomChunkMin
  omega

/-- What `_fair_log_page` answers when it is served alone. -/
theorem wlp_fairLogPage {starts : List (GroupId × ℤ)} (hlimit : 0 < limit) :
    (fairLogPage u starts limit).wlp (fun _ => False) (fun out ws' s' => (ws' = ws ∧ s' = s) ∧
        out.1 = (fullPage (s.view ws) u starts limit).rooms.map
          (fun room => (room.gid, room.picked)) ∧
        ((∃ room ∈ (fullPage (s.view ws) u starts limit).rooms, room.buf ≠ []) → out.2 = true))
      ws s := by
  unfold fairLogPage
  split
  · rename_i hstarts
    subst hstarts
    have hnil : (fullPage (s.view ws) u [] limit).rooms = [] := by
      rw [fullPage, rounds_of_done (.inr rfl)]
      rfl
    exact ⟨⟨rfl, rfl⟩, by rw [hnil]; rfl, by simp [hnil]⟩
  · have hwaiting : Waiting (.initial starts limit) := nofun
    refine Prog.wlp_seq (wlp_pageLoop (chunkFor_pos hlimit) hwaiting) ?_
    rintro page ws s ⟨⟨rfl, rfl⟩, hwaiting, heq⟩
    have hfull : fullPage (s.view ws) u starts limit = wholePage (s.view ws) u page.alone := by
      rw [fullPage, ← wholePage_initial, ← heq, wholePage_alone hwaiting]
    refine ⟨⟨rfl, rfl⟩, ?_, ?_⟩
    · rw [hfull]
      simp only [Page.result, wholePage, map_map]
      rfl
    · rw [hfull]
      rintro ⟨room, hroom, hbuf⟩
      obtain ⟨read, hread, rfl⟩ := mem_map.mp hroom
      refine any_eq_true.mpr ⟨read, hread, ?_⟩
      cases hunread : read.unread with
      | true => simp
      | false =>
        have hrest : read.buf ≠ [] := by
          simpa [whole, rest, hunread] using hbuf
        simpa using hrest

/-! ## What a page does to its rooms -/

/-- A round serves the room whose turn it is. -/
theorem done_or_turn (page : Page) : Done page ∨ ∃ i room, page.rowsLeft ≠ 0 ∧
    leastTurn page.rooms = some (i, room.given) ∧ page.rooms[i]? = some room ∧ room.turn = true := by
  by_cases hrows : page.rowsLeft = 0
  · exact .inl (.inl hrows)
  cases hleast : leastTurn page.rooms with
  | none => exact .inl (.inr hleast)
  | some turn =>
    obtain ⟨room, hget, hturn, hgiven⟩ := turn_of_leastTurn hleast
    exact .inr ⟨_, room, hrows, by rw [hgiven], hget, hturn⟩

/-- What every round keeps holds after the loop. -/
theorem rounds_inv {P : Page → Prop} (hpage : P page)
    (hstep : ∀ (page : Page) i room, P page → page.rowsLeft ≠ 0 → page.rooms[i]? = some room →
      room.turn = true → leastTurn page.rooms = some (i, room.given) → P (page.serve i room)) :
    P (rounds fuel page) := by
  induction fuel generalizing page with
  | zero => exact hpage
  | succ fuel ih =>
    rcases done_or_turn page with hdone | ⟨i, room, hrows, hleast, hget, hturn⟩
    · rw [rounds_of_done hdone]
      exact hpage
    · rw [rounds_of_turn hrows hleast hget]
      exact ih (hstep page i room hpage hrows hget hturn hleast)

/-- A room and its rows, picked or not. -/
def contents (room : Room) : GroupId × List (ℤ × LogRow) :=
  (room.gid, room.picked ++ room.buf)

theorem map_contents_set (hget : rooms[i]? = some room) (hlater : Later room new) :
    (rooms.set i new).map contents = rooms.map contents := by
  obtain ⟨hgid, took, hpicked, hbuf⟩ := hlater
  have hsame : contents new = contents room := by
    simp [contents, hgid, hpicked, hbuf]
  rw [map_set, hsame]
  refine ext_getElem? fun j => ?_
  by_cases hj : i = j
  · subst hj
    have hlength : i < (rooms.map contents).length := by
      simpa using (List.getElem?_eq_some_iff.mp hget).1
    rw [List.getElem?_set_self hlength, List.getElem?_map, hget]
    rfl
  · rw [getElem?_set_ne hj]

/-- A round moves rows within its room only. -/
theorem contents_serve (hget : page.rooms[i]? = some room) :
    (page.serve i room).rooms.map contents = page.rooms.map contents := by
  obtain ⟨new, hrooms, hlater⟩ := serve_rooms page i room
  rw [hrooms]
  exact map_contents_set hget hlater

theorem contents_alone (page : Page) : page.alone.rooms.map contents = page.rooms.map contents := by
  unfold Page.alone
  split
  · split
    · rfl
    split
    · rfl
    · exact map_contents_set ‹_› (later_pick _)
  · rfl

/-- A page splits the rows of every room into those that it picks and those that it leaves. -/
theorem contents_fullPage (starts : List (GroupId × ℤ)) (limit : ℕ) :
    (fullPage db u starts limit).rooms.map contents =
      starts.map fun x => (x.1, db.visibleRows u x.1 x.2) := by
  rw [fullPage, contents_alone]
  have hstart : (wholeStart db u starts limit).rooms.map contents =
      starts.map fun x => (x.1, db.visibleRows u x.1 x.2) := by
    simp [wholeStart, contents]
  exact rounds_inv hstart fun page i room h _ hget _ _ => (contents_serve hget).trans h

/-- The rooms that still get turns. -/
def turnsLeft (rooms : List Room) : ℕ := rooms.countP fun room => room.turn

private theorem turnsLeft_set (hget : rooms[i]? = some room) (hturn : room.turn = true) :
    turnsLeft (rooms.set i new) + 1 = turnsLeft rooms + if new.turn then 1 else 0 := by
  obtain ⟨hlt, rfl⟩ := List.getElem?_eq_some_iff.mp hget
  have hpos : 0 < rooms.countP fun room => room.turn :=
    countP_pos_iff.mpr ⟨_, getElem_mem hlt, hturn⟩
  unfold turnsLeft
  rw [countP_set hlt, if_pos hturn]
  split <;> omega

theorem pick_turn (hturn : room.turn = true) : room.pick.turn = true := by
  unfold Room.pick
  split
  · exact hturn
  · rfl

/-- Every round ends the turns of a room or spends a row. -/
theorem serve_progress (hrows : page.rowsLeft ≠ 0)
    (hget : page.rooms[i]? = some room) (hturn : room.turn = true) :
    (page.serve i room).rowsLeft + turnsLeft (page.serve i room).rooms + 1 =
      page.rowsLeft + turnsLeft page.rooms := by
  have hoff : turnsLeft (page.rooms.set i { room with turn := false }) + 1 =
      turnsLeft page.rooms := by
    rw [turnsLeft_set hget hturn, if_neg (by simp), Nat.add_zero]
  have hon : turnsLeft (page.rooms.set i room.pick) = turnsLeft page.rooms := by
    have hset : turnsLeft (page.rooms.set i room.pick) + 1 =
        turnsLeft page.rooms + if room.pick.turn then 1 else 0 := turnsLeft_set hget hturn
    rw [if_pos (pick_turn hturn)] at hset
    omega
  refine serve_elim (P := fun page' => page'.rowsLeft + turnsLeft page'.rooms + 1 = _)
    (fun _ => ?_) (fun _ _ _ _ => ?_) fun _ _ _ _ _ => ?_ <;> dsimp only <;> omega

/-- With enough rounds the loop ends by itself. -/
theorem rounds_done
    (hfuel : page.rowsLeft + turnsLeft page.rooms ≤ fuel) : Done (rounds fuel page) := by
  induction fuel generalizing page with
  | zero => exact .inl (show page.rowsLeft = 0 by omega)
  | succ fuel ih =>
    rcases done_or_turn page with hdone | ⟨i, room, hrows, hleast, hget, hturn⟩
    · rwa [rounds_of_done hdone]
    · rw [rounds_of_turn hrows hleast hget]
      have := serve_progress hrows hget hturn
      exact ih (by omega)

/-- `limit + starts.length` is enough. -/
theorem turns_wholeStart (starts : List (GroupId × ℤ)) (limit : ℕ) :
    (wholeStart db u starts limit).rowsLeft + turnsLeft (wholeStart db u starts limit).rooms ≤
      limit + starts.length := by
  have hturns : turnsLeft (wholeStart db u starts limit).rooms ≤
      (wholeStart db u starts limit).rooms.length := countP_le_length
  have hlength : (wholeStart db u starts limit).rooms.length = starts.length := by
    simp [wholeStart]
  exact Nat.add_le_add_left (hturns.trans_eq hlength) limit

theorem leastTurn_eq_none : leastTurn rooms = none ↔ ∀ room ∈ rooms, room.turn = false := by
  induction rooms with
  | nil => simp [leastTurn]
  | cons room rooms ih =>
    rw [forall_mem_cons, ← ih]
    cases hleast : leastTurn rooms with
    | none => simp [leastTurn, hleast]
    | some turn =>
      simp only [leastTurn, hleast]
      split <;> simp

/-- As long as a page is empty, a room that is out of it has nothing or is among `tooBig`. -/
def Empty (limit : ℕ) (page : Page) : Prop :=
  (∀ room ∈ page.rooms, room.picked = []) →
    page.rowsLeft = limit ∧
      ∀ i room, page.rooms[i]? = some room → room.turn = true ∨ room.buf = [] ∨ i ∈ page.tooBig

theorem picked_of_set
    (hget : rooms[i]? = some room) (h : ∀ other ∈ rooms.set i new, other.picked = [])
    (hpicked : new.picked = room.picked) : ∀ room ∈ rooms, room.picked = [] := by
  intro other hother
  obtain ⟨j, hj⟩ := getElem?_of_mem hother
  by_cases hij : i = j
  · subst hij
    obtain rfl : room = other := by simpa [hget] using hj
    rw [← hpicked]
    exact h new (mem_set (List.getElem?_eq_some_iff.mp hget).1 new)
  · refine h other (mem_of_getElem? (i := j) ?_)
    rw [List.getElem?_set_ne hij, hj]

theorem pick_picked (hbuf : room.buf = row :: tail) : room.pick.picked = room.picked ++ [row] := by
  simp [Room.pick, hbuf]

/-- A page with a row just picked is not empty. -/
theorem picked_of_set_pick (hget : rooms[i]? = some room) (hbuf : room.buf = row :: tail) :
    ¬∀ other ∈ rooms.set i room.pick, other.picked = [] := by
  intro hnone
  have hpicked := hnone room.pick (mem_set (List.getElem?_eq_some_iff.mp hget).1 room.pick)
  simp [pick_picked hbuf] at hpicked

theorem Empty.serve (h : Empty limit page)
    (hget : page.rooms[i]? = some room) : Empty limit (page.serve i room) := by
  have hlt : i < page.rooms.length := (List.getElem?_eq_some_iff.mp hget).1
  refine serve_elim (fun hbuf hnone => ?_) (fun _ _ _ _ hnone => ?_)
    fun _ _ hbuf _ _ hnone => absurd hnone (picked_of_set_pick hget hbuf)
  all_goals
    obtain ⟨hrows, hout⟩ := h (picked_of_set hget hnone rfl)
    refine ⟨hrows, fun j other hj => ?_⟩
    by_cases hij : i = j
    on_goal 2 => rw [getElem?_set_ne hij] at hj
  · subst hij
    rw [getElem?_set_self hlt] at hj
    cases hj
    exact .inr (.inl hbuf)
  · exact hout j other hj
  · exact .inr (.inr (by simp [hij]))
  · exact (hout j other hj).imp_right (Or.imp_right fun h => mem_append_left _ h)

private theorem foldl_smaller_isSome {best : Option ℕ} (h : l ≠ [] ∨ best ≠ none) :
    l.foldl (smaller f) best ≠ none := by
  induction l generalizing best with
  | nil => exact h.resolve_left (by simp)
  | cons i l ih =>
    rw [foldl_cons]
    refine ih (.inr ?_)
    unfold smaller
    split
    · simp
    · split <;> simp

private theorem Waiting.rounds (h : Waiting page) : Waiting (rounds fuel page) :=
  rounds_inv h fun _ _ _ h _ hget hturn _ => h.serve hget hturn

/-- A page is empty only if there is nothing to pick. -/
theorem exists_picked_fullPage {starts : List (GroupId × ℤ)} (hlimit : 0 < limit)
    {x : GroupId × ℤ} (hx : x ∈ starts) (hrows : db.visibleRows u x.1 x.2 ≠ []) :
    ∃ room ∈ (fullPage db u starts limit).rooms, room.picked ≠ [] := by
  set page := rounds (limit + starts.length) (wholeStart db u starts limit) with hpage
  have hfull : fullPage db u starts limit = page.alone := rfl
  by_cases hnone : ∀ room ∈ page.rooms, room.picked = []
  · -- no round has picked anything, so every room with rows is waiting, and one goes out alone
    have hempty : Empty limit page := by
      refine rounds_inv ?_ fun _ _ _ h _ hget _ _ => h.serve hget
      refine fun _ => ⟨rfl, fun i room hget => .inl ?_⟩
      obtain ⟨y, -, rfl⟩ := mem_map.mp (mem_of_getElem? hget)
      rfl
    have hwaiting : Waiting page :=
      Waiting.rounds nofun
    have hdone : Done page := rounds_done (turns_wholeStart starts limit)
    obtain ⟨hleft, hout⟩ := hempty hnone
    have hoff : ∀ room ∈ page.rooms, room.turn = false :=
      leastTurn_eq_none.mp (hdone.resolve_left (by omega))
    have hcontents : (x.1, db.visibleRows u x.1 x.2) ∈ page.rooms.map contents := by
      rw [← contents_alone, ← hfull, contents_fullPage]
      exact mem_map.mpr ⟨x, hx, rfl⟩
    obtain ⟨room, hroom, hroomrows⟩ := mem_map.mp hcontents
    have hbuf : room.buf ≠ [] := by
      have hsnd : room.picked ++ room.buf = db.visibleRows u x.1 x.2 := congrArg Prod.snd hroomrows
      rw [hnone room hroom, nil_append] at hsnd
      rwa [hsnd]
    obtain ⟨i, hi⟩ := getElem?_of_mem hroom
    have hbig : i ∈ page.tooBig := by
      rcases hout i room hi with hturn | hnil | hbig
      · simp [hoff room hroom] at hturn
      · exact absurd hnil hbuf
      · exact hbig
    obtain ⟨j, hj⟩ : ∃ j, page.smallest = some j :=
      Option.ne_none_iff_exists'.mp (foldl_smaller_isSome (.inl (ne_nil_of_mem hbig)))
    obtain ⟨first, hfirst, -, hfirstbuf⟩ := hwaiting j (mem_tooBig_of_smallest hj)
    obtain ⟨row, tail, hcons⟩ := exists_cons_of_ne_nil hfirstbuf
    have halone : page.alone = { page with rooms := page.rooms.set j first.pick } := by
      unfold Page.alone
      rw [if_pos (by simpa using hnone), hj]
      simp only [hfirst]
    refine ⟨first.pick, ?_, by simp [pick_picked hcons]⟩
    rw [hfull, halone]
    exact mem_set (List.getElem?_eq_some_iff.mp hfirst).1 _
  · push Not at hnone
    obtain ⟨room, hroom, hpicked⟩ := hnone
    have halone : page.alone = page := by
      unfold Page.alone
      rw [if_neg]
      simp only [List.all_eq_true, List.isEmpty_iff]
      exact fun h => hpicked (h room hroom)
    rw [hfull, halone]
    exact ⟨room, hroom, hpicked⟩

end RcqServer.RoomLog
