import RcqServer.RoomLog.Pages

/-!
# Who gets into a page

Whether a page serves any room of a given set `live` is decided by the first turns.  Rooms come to
their first turn in order, since every room that has had one has been given bytes or is out of the
page; and before a live room is served only the other rooms have spent anything.  Such a room
spends its *opening*: its empty rows, which count as rows but give it no bytes, and then one row
with bytes, charged to the budget, or stretching it, or refused.

`Admitted` runs through the rooms in order and asks whether some live room finds its next row
admitted after the openings ahead of it.  The main result is `picks_live_iff`.
-/

namespace RcqServer.RoomLog

open Messages List

/-! ## Openings -/

/-- What is left of a page. -/
structure Budget where
  rows : ℕ
  bytes : ℕ
  stretched : Bool

/-- A room that has been given nothing yet gets its next row in. -/
def Budget.Admits (b : Budget) (size : ℕ) : Prop :=
  0 < b.rows ∧ (size ≤ b.bytes ∨ b.stretched = false)

instance (b : Budget) (size : ℕ) : Decidable (b.Admits size) :=
  inferInstanceAs (Decidable (_ ∧ _))

/-- The budget after an admitted row. -/
def Budget.spend (b : Budget) (size : ℕ) : Budget :=
  if size ≤ b.bytes then { b with rows := b.rows - 1, bytes := b.bytes - size }
  else { b with rows := b.rows - 1, stretched := true }

/-- The budget after the opening of a room with rows of these sizes. -/
def opening : List ℕ → Budget → Budget
  | [], b => b
  | size :: sizes, b =>
    if b.Admits size then
      if size = 0 then opening sizes (b.spend 0) else b.spend size
    else b

/-- Some live room finds its next row admitted, after the openings of the others ahead of it. -/
def Admitted (live : GroupId → Bool) : List (GroupId × List ℕ) → Budget → Prop
  | [], _ => False
  | (g, sizes) :: rest, b =>
    if live g then (∃ size ∈ sizes.head?, b.Admits size) ∨ Admitted live rest b
    else Admitted live rest (opening sizes b)

instance Admitted.decidable (live : GroupId → Bool) :
    ∀ (rooms : List (GroupId × List ℕ)) (b : Budget), Decidable (Admitted live rooms b)
  | [], _ => isFalse id
  | (g, sizes) :: rest, b =>
    have := Admitted.decidable live rest b
    have := Admitted.decidable live rest (opening sizes b)
    inferInstanceAs (Decidable (if live g then
      (∃ size ∈ sizes.head?, b.Admits size) ∨ Admitted live rest b
      else Admitted live rest (opening sizes b)))

variable {live : GroupId → Bool}

theorem opening_of_rows_zero {b : Budget} (hrows : b.rows = 0) (sizes : List ℕ) :
    opening sizes b = b := by
  cases sizes with
  | nil => rfl
  | cons size sizes => simp [opening, Budget.Admits, hrows]

theorem not_admitted_of_rows_zero {b : Budget} (hrows : b.rows = 0)
    (rooms : List (GroupId × List ℕ)) : ¬Admitted live rooms b := by
  induction rooms with
  | nil => exact id
  | cons room rest ih =>
    obtain ⟨g, sizes⟩ := room
    unfold Admitted
    split
    · rintro (⟨size, -, hadmits⟩ | hrest)
      · exact absurd hadmits.1 (by omega)
      · exact ih hrest
    · rw [opening_of_rows_zero hrows]
      exact ih

/-- Rooms without rows make no difference. -/
theorem admitted_filter {keep : GroupId × List ℕ → Bool} {rooms : List (GroupId × List ℕ)}
    (hkeep : ∀ room ∈ rooms, keep room = false → room.2 = []) (b : Budget) :
    Admitted live (rooms.filter keep) b ↔ Admitted live rooms b := by
  induction rooms generalizing b with
  | nil => exact Iff.rfl
  | cons room rest ih =>
    have ih' := ih fun room hroom => hkeep room (mem_cons_of_mem _ hroom)
    obtain ⟨g, sizes⟩ := room
    cases hroom : keep (g, sizes) with
    | true =>
      rw [filter_cons_of_pos hroom]
      unfold Admitted
      split
      · rw [ih']
      · exact ih' _
    | false =>
      obtain rfl : sizes = [] := hkeep _ mem_cons_self hroom
      rw [filter_cons_of_neg (by simp [hroom]), ih']
      simp [Admitted, opening]

/-! ## A first turn -/

def budgetOf (page : Page) : Budget := ⟨page.rowsLeft, page.bytesLeft, page.stretched⟩

def sizesOf (room : Room) : List ℕ := room.buf.map fun row => row.2.payload.length

section FirstTurn

variable {page : Page} {i : ℕ} {room : Room} {row : ℤ × LogRow} {tail : List (ℤ × LogRow)}

theorem serve_admitted (hbuf : room.buf = row :: tail) (hgiven : room.given = 0)
    (hfits : row.2.payload.length ≤ groupLogPageBytes)
    (hadmits : (budgetOf page).Admits row.2.payload.length) :
    (page.serve i room).rooms = page.rooms.set i room.pick ∧
      budgetOf (page.serve i room) = (budgetOf page).spend row.2.payload.length := by
  by_cases hsize : row.2.payload.length ≤ page.bytesLeft
  · rw [serve_fits hbuf hsize]
    refine ⟨rfl, ?_⟩
    rw [Budget.spend, if_pos (show row.2.payload.length ≤ (budgetOf page).bytes from hsize)]
    rfl
  · have hstretch : page.stretched = false := hadmits.2.resolve_left hsize
    have hstretches : Stretches page room row := by
      refine ⟨not_le.mp hsize, ?_⟩
      rintro (hgiven' | hstretched | hbig)
      · exact hgiven' hgiven
      · rw [hstretch] at hstretched
        cases hstretched
      · omega
    rw [serve_stretch hbuf hstretches]
    refine ⟨rfl, ?_⟩
    rw [Budget.spend, if_neg (show ¬row.2.payload.length ≤ (budgetOf page).bytes from hsize)]
    rfl

theorem serve_refused (hbuf : room.buf = row :: tail) (hrows : page.rowsLeft ≠ 0)
    (hrefused : ¬(budgetOf page).Admits row.2.payload.length) :
    (page.serve i room).rooms = page.rooms.set i { room with turn := false } ∧
      budgetOf (page.serve i room) = budgetOf page := by
  have hrest : ¬(row.2.payload.length ≤ page.bytesLeft ∨ page.stretched = false) :=
    fun h => hrefused ⟨Nat.pos_of_ne_zero hrows, h⟩
  have hbig : TooBig page room row := by
    refine ⟨not_le.mp fun h => hrest (.inl h), .inr (.inl ?_)⟩
    cases hstretched : page.stretched with
    | true => rfl
    | false => exact absurd (.inr hstretched) hrest
  rw [serve_tooBig hbuf hbig]
  exact ⟨rfl, rfl⟩

/-- Rooms that have had their first turn come after those that have not. -/
theorem leastTurn_first {done rest : List Room}
    (hdone : ∀ room ∈ done, room.turn = false ∨ 0 < room.given) (hturn : room.turn = true)
    (hgiven : room.given = 0) : leastTurn (done ++ room :: rest) = some (done.length, 0) := by
  induction done with
  | nil =>
    rw [nil_append, leastTurn]
    cases leastTurn rest with
    | none => simp [hturn, hgiven]
    | some turn => simp [hturn, hgiven]
  | cons first done ih =>
    have hrest := ih fun room hroom => hdone room (mem_cons_of_mem _ hroom)
    rw [cons_append, leastTurn, hrest]
    have hout : ¬(first.turn = true ∧ first.given ≤ 0) := by
      rcases hdone first mem_cons_self with hoff | hpos
      · simp [hoff]
      · omega
    simp only [if_neg hout, length_cons]

end FirstTurn

/-! ## The first turns of a page -/

/-- The page has served a live room. -/
def LivePicked (live : GroupId → Bool) (page : Page) : Prop :=
  ∃ room ∈ page.rooms, live room.gid = true ∧ room.picked ≠ []

/-- The page before the first turn of the first room of `rest`, if no live room was served so
far.  The live rooms among those before are out. -/
structure Stage (live : GroupId → Bool) (page : Page) (done rest : List Room) : Prop where
  rooms : page.rooms = done ++ rest
  served : ∀ room ∈ done, (room.turn = false ∨ 0 < room.given) ∧
    (live room.gid = true → room.turn = false ∧ room.picked = [])
  waiting : ∀ room ∈ rest, room.turn = true ∧ room.given = 0 ∧
    (live room.gid = true → room.picked = [])
  fits : ∀ room ∈ rest, ∀ row ∈ room.buf, row.2.payload.length ≤ groupLogPageBytes

section Stage

variable {page page' : Page} {done rest : List Room} {room new : Room}

theorem Stage.not_livePicked (h : Stage live page done rest) : ¬LivePicked live page := by
  rintro ⟨room, hroom, hlive, hpicked⟩
  rw [h.rooms] at hroom
  rcases mem_append.mp hroom with hdone | hrest
  · exact hpicked ((h.served room hdone).2 hlive).2
  · exact hpicked ((h.waiting room hrest).2.2 hlive)

theorem Stage.of_rows_zero (h : Stage live page done rest) (hrows : page.rowsLeft = 0) {fuel : ℕ}
    {rooms : List (GroupId × List ℕ)} :
    LivePicked live (rounds fuel page) ↔ Admitted live rooms (budgetOf page) := by
  rw [rounds_of_done (.inl hrows)]
  exact iff_of_false h.not_livePicked (not_admitted_of_rows_zero hrows _)

theorem Stage.getElem? (h : Stage live page done (room :: rest)) :
    page.rooms[done.length]? = some room := by
  rw [h.rooms]
  simp

theorem Stage.leastTurn (h : Stage live page done (room :: rest)) :
    Messages.leastTurn page.rooms = some (done.length, 0) := by
  obtain ⟨hturn, hgiven, -⟩ := h.waiting room mem_cons_self
  rw [h.rooms]
  exact leastTurn_first (fun room hroom => (h.served room hroom).1) hturn hgiven

/-- The room has had its opening. -/
theorem Stage.next (h : Stage live page done (room :: rest))
    (hrooms : page'.rooms = page.rooms.set done.length new)
    (hout : new.turn = false ∨ 0 < new.given)
    (hlive : live new.gid = true → new.turn = false ∧ new.picked = []) :
    Stage live page' (done ++ [new]) rest where
  rooms := by
    rw [hrooms, h.rooms]
    simp
  served := forall_mem_append.mpr ⟨h.served, forall_mem_singleton.mpr ⟨hout, hlive⟩⟩
  waiting := (forall_mem_cons.mp h.waiting).2
  fits := (forall_mem_cons.mp h.fits).2

/-- The room stays at its turn. -/
theorem Stage.stay (h : Stage live page done (room :: rest))
    (hrooms : page'.rooms = page.rooms.set done.length new)
    (hnew : new.turn = true ∧ new.given = 0 ∧ (live new.gid = true → new.picked = []))
    (hfits : ∀ row ∈ new.buf, row ∈ room.buf) : Stage live page' done (new :: rest) where
  rooms := by
    rw [hrooms, h.rooms]
    simp
  served := h.served
  waiting := forall_mem_cons.mpr ⟨hnew, (forall_mem_cons.mp h.waiting).2⟩
  fits := by
    obtain ⟨hroom, hrest⟩ := forall_mem_cons.mp h.fits
    exact forall_mem_cons.mpr ⟨fun row hrow => hroom row (hfits row hrow), hrest⟩

theorem LivePicked.serve {i : ℕ} (h : LivePicked live page) (hget : page.rooms[i]? = some room) :
    LivePicked live (page.serve i room) := by
  obtain ⟨new, hrooms, hgid, took, hpicked, -⟩ := serve_rooms page i room
  obtain ⟨other, hother, hlive, hne⟩ := h
  obtain ⟨j, hj⟩ := getElem?_of_mem hother
  rw [LivePicked, hrooms]
  by_cases hij : i = j
  · subst hij
    obtain rfl : room = other := by simpa [hget] using hj
    refine ⟨new, mem_set (List.getElem?_eq_some_iff.mp hget).1 new, by rwa [hgid], ?_⟩
    simp [hpicked, hne]
  · refine ⟨other, mem_of_getElem? (i := j) ?_, hlive, hne⟩
    rw [getElem?_set_ne hij, hj]

theorem LivePicked.rounds {fuel : ℕ} (h : LivePicked live page) :
    LivePicked live (rounds fuel page) :=
  rounds_inv h fun _ _ _ h _ hget _ _ => h.serve hget

/-- The live rooms are out of the page, unserved. -/
def LiveOut (live : GroupId → Bool) (page : Page) : Prop :=
  ∀ room ∈ page.rooms, live room.gid = true → room.turn = false ∧ room.picked = []

theorem LiveOut.serve {i : ℕ} (h : LiveOut live page) (hget : page.rooms[i]? = some room)
    (hturn : room.turn = true) : LiveOut live (page.serve i room) := by
  obtain ⟨new, hrooms, hgid, -⟩ := serve_rooms page i room
  rw [LiveOut, hrooms]
  intro other hother hlive
  rcases mem_or_eq_of_mem_set hother with hold | rfl
  · exact h other hold hlive
  · rw [hgid] at hlive
    have hoff := (h room (mem_of_getElem? hget) hlive).1
    simp [hturn] at hoff

theorem LiveOut.not_livePicked (h : LiveOut live page) (fuel : ℕ) :
    ¬LivePicked live (RoomLog.rounds fuel page) := by
  have hout : LiveOut live (RoomLog.rounds fuel page) :=
    rounds_inv h fun _ _ _ h _ hget hturn _ => h.serve hget hturn
  rintro ⟨room, hroom, hlive, hpicked⟩
  exact hpicked (hout room hroom hlive).2

/-! ## The main result -/

/-- The shape of the rooms that have not had their first turn. -/
def shape (rooms : List Room) : List (GroupId × List ℕ) :=
  rooms.map fun room => (room.gid, sizesOf room)

/-- The fuel that a page needs. -/
def turnsAhead (page : Page) : ℕ := page.rowsLeft + turnsLeft page.rooms

/-- One turn of the first room of `rest`. -/
theorem Stage.turn (h : Stage live page done (room :: rest)) (hrows : page.rowsLeft ≠ 0) {fuel : ℕ}
    (hfuel : turnsAhead page ≤ fuel) :
    ∃ fuel', rounds fuel page = rounds fuel' (page.serve done.length room) ∧
      turnsAhead (page.serve done.length room) ≤ fuel' := by
  obtain ⟨hturn, -, -⟩ := h.waiting room mem_cons_self
  have hprogress := serve_progress hrows h.getElem? hturn
  unfold turnsAhead at hfuel ⊢
  cases fuel with
  | zero => omega
  | succ fuel => exact ⟨fuel, rounds_of_turn hrows h.leastTurn h.getElem?, by omega⟩

/-- What `picks_live_iff` says of the rooms `rest`. -/
def Decides (live : GroupId → Bool) (rest : List Room) : Prop :=
  ∀ (fuel : ℕ) (page : Page) (done : List Room), Stage live page done rest →
    turnsAhead page ≤ fuel →
      (LivePicked live (rounds fuel page) ↔ Admitted live (shape rest) (budgetOf page))

/-- The first turn of a live room decides, or takes the room out. -/
theorem decides_live (ih : Decides live rest) (hlive : live room.gid = true) :
    Decides live (room :: rest) := by
  intro fuel page done h hfuel
  have hshape : Admitted live (shape (room :: rest)) (budgetOf page) ↔
      (∃ size ∈ (sizesOf room).head?, (budgetOf page).Admits size) ∨
        Admitted live (shape rest) (budgetOf page) := by
    simp only [shape, map_cons, Admitted, if_pos hlive]
  by_cases hrows : page.rowsLeft = 0
  · exact h.of_rows_zero hrows
  obtain ⟨fuel', hrounds, hfuel'⟩ := h.turn hrows hfuel
  obtain ⟨-, hgiven, hpicked⟩ := h.waiting room mem_cons_self
  rw [hrounds, hshape]
  cases hbuf : room.buf with
  | nil =>
    have hserve : page.serve done.length room = _ := serve_empty hbuf
    have hstage : Stage live (page.serve done.length room)
        (done ++ [{ room with turn := false }]) rest :=
      h.next (by rw [hserve]) (.inl rfl) fun hl => ⟨rfl, hpicked hl⟩
    rw [ih fuel' _ _ hstage hfuel', hserve]
    simp [sizesOf, hbuf, budgetOf]
  | cons row tail =>
    have hhead : (∃ size ∈ (sizesOf room).head?, (budgetOf page).Admits size) ↔
        (budgetOf page).Admits row.2.payload.length := by simp [sizesOf, hbuf]
    rw [hhead]
    by_cases hadmits : (budgetOf page).Admits row.2.payload.length
    · have hfits := h.fits room mem_cons_self row (by simp [hbuf])
      obtain ⟨hrooms, -⟩ := serve_admitted (i := done.length) hbuf hgiven hfits hadmits
      have hserved : LivePicked live (page.serve done.length room) := by
        refine ⟨room.pick, ?_, by rw [pick_gid]; exact hlive, by simp [Room.pick, hbuf]⟩
        rw [hrooms]
        exact mem_set (List.getElem?_eq_some_iff.mp h.getElem?).1 _
      exact iff_of_true hserved.rounds (.inl hadmits)
    · obtain ⟨hrooms, hbudget⟩ := serve_refused (i := done.length) hbuf hrows hadmits
      have hstage := h.next hrooms (.inl rfl) fun hl => ⟨rfl, hpicked hl⟩
      rw [ih fuel' _ _ hstage hfuel', hbudget]
      simp [hadmits]

/-- A room that is not live takes its opening: its empty rows one by one, then a row with bytes. -/
theorem stalled_opening (ih : Decides live rest) {buf : List (ℤ × LogRow)} :
    ∀ (room : Room) (fuel : ℕ) (page : Page), room.buf = buf → live room.gid ≠ true →
      Stage live page done (room :: rest) → turnsAhead page ≤ fuel →
        (LivePicked live (rounds fuel page) ↔
          Admitted live (shape rest) (opening (sizesOf room) (budgetOf page))) := by
  induction buf with
  | nil =>
    intro room fuel page hbuf hstalled h hfuel
    have hopening : opening (sizesOf room) (budgetOf page) = budgetOf page := by
      simp [sizesOf, hbuf, opening]
    rw [hopening]
    by_cases hrows : page.rowsLeft = 0
    · exact h.of_rows_zero hrows
    obtain ⟨fuel', hrounds, hfuel'⟩ := h.turn hrows hfuel
    have hserve : page.serve done.length room = _ := serve_empty hbuf
    have hstage : Stage live (page.serve done.length room)
        (done ++ [{ room with turn := false }]) rest :=
      h.next (by rw [hserve]) (.inl rfl) fun hl => absurd hl hstalled
    rw [hrounds, ih fuel' _ _ hstage hfuel', hserve]
    rfl
  | cons row tail ihbuf =>
    intro room fuel page hbuf hstalled h hfuel
    have hsizes : sizesOf room = row.2.payload.length ::
        tail.map fun row => row.2.payload.length := by simp [sizesOf, hbuf]
    by_cases hrows : page.rowsLeft = 0
    · rw [opening_of_rows_zero hrows]
      exact h.of_rows_zero hrows
    obtain ⟨fuel', hrounds, hfuel'⟩ := h.turn hrows hfuel
    obtain ⟨hturn, hgiven, -⟩ := h.waiting room mem_cons_self
    have hpick : room.pick.buf = tail ∧ room.pick.given = row.2.payload.length := by
      simp [Room.pick, hbuf, hgiven]
    rw [hrounds, hsizes, opening]
    by_cases hadmits : (budgetOf page).Admits row.2.payload.length
    · have hfits := h.fits room mem_cons_self row (by simp [hbuf])
      obtain ⟨hrooms, hbudget⟩ := serve_admitted (i := done.length) hbuf hgiven hfits hadmits
      rw [if_pos hadmits]
      split
      · -- an empty row: the room has been given nothing and keeps its turn
        rename_i hzero
        have hstage := h.stay hrooms ⟨pick_turn hturn, hpick.2.trans hzero, fun hl =>
          absurd (pick_gid room ▸ hl) hstalled⟩ (fun r hr => by
            rw [hpick.1] at hr
            rw [hbuf]
            exact mem_cons_of_mem _ hr)
        have hrest := ihbuf room.pick fuel' _ hpick.1 (by rw [pick_gid]; exact hstalled)
          hstage hfuel'
        have htail : sizesOf room.pick = tail.map fun row => row.2.payload.length := by
          rw [sizesOf, hpick.1]
        rw [hrest, hbudget, htail, hzero]
      · rename_i hbytes
        have hpos : 0 < room.pick.given := by
          rw [hpick.2]
          omega
        have hstage := h.next hrooms (.inr hpos) fun hl => absurd (pick_gid room ▸ hl) hstalled
        rw [ih fuel' _ _ hstage hfuel', hbudget]
    · obtain ⟨hrooms, hbudget⟩ := serve_refused (i := done.length) hbuf hrows hadmits
      have hstage := h.next hrooms (.inl rfl) fun hl => absurd hl hstalled
      rw [if_neg hadmits, ih fuel' _ _ hstage hfuel', hbudget]

/-- By induction on the rooms that have not had their first turn. -/
theorem decides (rest : List Room) : Decides live rest := by
  induction rest with
  | nil =>
    intro fuel page done h hfuel
    have hout : LiveOut live page := by
      intro room hroom hlive
      rw [h.rooms, append_nil] at hroom
      exact (h.served room hroom).2 hlive
    exact iff_of_false (hout.not_livePicked fuel) id
  | cons room rest ih =>
    by_cases hlive : live room.gid = true
    · exact decides_live ih hlive
    · intro fuel page done h hfuel
      rw [stalled_opening ih room fuel page rfl hlive h hfuel]
      simp only [shape, map_cons, Admitted, if_neg hlive]

end Stage

/-! ## A whole page -/

/-- As long as a page of rows that fit is empty, nothing is spent and nothing was refused. -/
structure Unspent (page : Page) : Prop where
  fits : ∀ room ∈ page.rooms, ∀ row ∈ room.buf, row.2.payload.length ≤ groupLogPageBytes
  unspent : (∀ room ∈ page.rooms, room.picked = []) → page.tooBig = [] ∧
    page.bytesLeft = groupLogPageBytes ∧ page.stretched = false ∧
      ∀ room ∈ page.rooms, room.given = 0

theorem Unspent.serve {page : Page} {i : ℕ} {room : Room} (h : Unspent page)
    (hget : page.rooms[i]? = some room) : Unspent (page.serve i room) := by
  have hroom : room ∈ page.rooms := mem_of_getElem? hget
  have hfits : ∀ other ∈ (page.serve i room).rooms, ∀ row ∈ other.buf,
      row.2.payload.length ≤ groupLogPageBytes := by
    obtain ⟨new, hrooms, -, took, -, hbuf⟩ := serve_rooms page i room
    rw [hrooms]
    intro other hother row hrow
    rcases mem_or_eq_of_mem_set hother with hold | rfl
    · exact h.fits other hold row hrow
    · exact h.fits room hroom row (hbuf ▸ mem_append_right _ hrow)
  refine ⟨hfits, serve_elim (P := fun page' => (∀ r ∈ page'.rooms, r.picked = []) →
      page'.tooBig = [] ∧ page'.bytesLeft = _ ∧ page'.stretched = _ ∧ ∀ r ∈ page'.rooms, r.given = 0)
    (fun _ hnone => ?_) (fun row _ hbuf hbig hnone => ?_)
    fun _ _ hbuf _ _ hnone => absurd hnone (picked_of_set_pick hget hbuf)⟩
  · obtain ⟨hbig, hbytes, hstretched, hgiven⟩ := h.unspent (picked_of_set hget hnone rfl)
    refine ⟨hbig, hbytes, hstretched, fun other hother => ?_⟩
    rcases mem_or_eq_of_mem_set hother with hold | rfl
    · exact hgiven other hold
    · exact hgiven room hroom
  · obtain ⟨-, hbytes, -, -⟩ := h.unspent (picked_of_set hget hnone rfl)
    have hrow := h.fits room hroom row (by simp [hbuf])
    have := hbig.1
    omega

/-- If every row fits a page, no row goes out alone. -/
theorem Unspent.alone {page : Page} (h : Unspent page) : page.alone = page := by
  unfold Page.alone
  split
  · rename_i hnone
    have hbig := (h.unspent (by simpa using hnone)).1
    simp [Page.smallest, hbig]
  · rfl

/-- A page serves a live room if and only if one finds its next row admitted. -/
theorem picks_live_iff {db : Db} {u : Uin} {starts : List (GroupId × ℤ)} {limit : ℕ}
    (hfits : ∀ x ∈ starts, ∀ row ∈ db.visibleRows u x.1 x.2,
      row.2.payload.length ≤ groupLogPageBytes) : LivePicked live (fullPage db u starts limit) ↔
      Admitted live (starts.map fun x => (x.1, (db.visibleRows u x.1 x.2).map fun row =>
        row.2.payload.length)) ⟨limit, groupLogPageBytes, false⟩ := by
  have hunspent : Unspent (wholeStart db u starts limit) := by
    refine ⟨fun room hroom => ?_, fun _ => ⟨rfl, rfl, rfl, fun room hroom => ?_⟩⟩
    · obtain ⟨x, hx, rfl⟩ := mem_map.mp hroom
      exact hfits x hx
    · obtain ⟨x, -, rfl⟩ := mem_map.mp hroom
      rfl
  have hfull : fullPage db u starts limit =
      rounds (limit + starts.length) (wholeStart db u starts limit) :=
    Unspent.alone (rounds_inv hunspent fun _ _ _ h _ hget _ _ => h.serve hget)
  have hstage : Stage live (wholeStart db u starts limit) []
      (wholeStart db u starts limit).rooms := by
    refine ⟨rfl, nofun, fun room hroom => ?_, hunspent.fits⟩
    obtain ⟨x, -, rfl⟩ := mem_map.mp hroom
    exact ⟨rfl, rfl, fun _ => rfl⟩
  have hshape : shape (wholeStart db u starts limit).rooms =
      starts.map fun x => (x.1, (db.visibleRows u x.1 x.2).map fun row =>
        row.2.payload.length) := by
    simp [shape, wholeStart, sizesOf]
  rw [hfull, decides _ _ _ _ hstage (turns_wholeStart starts limit), hshape]
  rfl

end RcqServer.RoomLog
