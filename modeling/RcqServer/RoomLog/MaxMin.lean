import RcqServer.RoomLog.Budget

/-!
# A page is shared max-min fairly

The next row of a page comes from the room that has been given the fewest bytes.  So a room that has
rows left at the end, and was not dropped for a row that did not fit, was never behind a room that
got another row: it ends with at least as many bytes as that room held before the row.
-/

namespace RcqServer.RoomLog

open ReadCommitted Messages List Option

variable {page : Page} {i : ℕ} {room : Room} {row : ℤ × LogRow} {tail : List (ℤ × LogRow)}

theorem given_le_of_leastTurn {rooms : List Room} {given : ℕ}
    (hleast : leastTurn rooms = some (i, given)) {other : Room} (hother : other ∈ rooms)
    (hturn : other.turn = true) : given ≤ other.given := by
  induction rooms generalizing i given with
  | nil => cases hother
  | cons first rooms ih =>
    unfold leastTurn at hleast
    cases hrest : leastTurn rooms with
    | none =>
      have hoff := leastTurn_eq_none.mp hrest
      rcases mem_cons.mp hother with rfl | hother
      · simp only [hrest, hturn, if_true, some.injEq, Prod.mk.injEq] at hleast
        exact hleast.2.symm.le
      · rw [hoff other hother] at hturn
        cases hturn
    | some least =>
      obtain ⟨j, given'⟩ := least
      simp only [hrest] at hleast
      split at hleast
      · rename_i hfirst
        obtain ⟨-, rfl⟩ := Prod.mk.inj (some.inj hleast)
        rcases mem_cons.mp hother with rfl | hother
        · exact le_rfl
        · exact hfirst.2.trans (ih hrest hother)
      · rename_i hfirst
        obtain ⟨-, rfl⟩ := Prod.mk.inj (some.inj hleast)
        rcases mem_cons.mp hother with rfl | hother
        · by_contra hlt
          exact hfirst ⟨hturn, by omega⟩
        · exact ih hrest hother

theorem bytes_le_of_prefix {a b : List (ℤ × LogRow)} (h : a <+: b) : bytes a ≤ bytes b := by
  obtain ⟨c, rfl⟩ := h
  simp [bytes]

/-- What the loop keeps: whoever still gets turns has as much as any room held before its last
row. -/
structure MaxMin (page : Page) : Prop where
  counted : ∀ room ∈ page.rooms, room.given = bytes room.picked
  out : ∀ j room, page.rooms[j]? = some room → room.turn = true ∨ room.buf = [] ∨ j ∈ page.tooBig
  behind : ∀ h ∈ page.rooms, ∀ g ∈ page.rooms, g.turn = true → ∀ held, held <+: h.picked →
    held ≠ h.picked → bytes held ≤ g.given

/-- A room loses its turn, for want of rows or because the next does not fit. -/
theorem MaxMin.drop (h : MaxMin page) (hget : page.rooms[i]? = some room) {tooBig : List ℕ}
    (hsub : page.tooBig ⊆ tooBig) (hout : room.buf = [] ∨ i ∈ tooBig) :
    MaxMin { page with rooms := page.rooms.set i { room with turn := false }, tooBig := tooBig } := by
  have hroom : room ∈ page.rooms := mem_of_getElem? hget
  refine ⟨fun other hother => ?_, fun j other hj => ?_, fun a ha b hb hturn held hheld hne => ?_⟩
  · rcases mem_or_eq_of_mem_set hother with hold | rfl
    · exact h.counted other hold
    · exact h.counted room hroom
  · by_cases hij : i = j
    · subst hij
      rw [List.getElem?_set_self (List.getElem?_eq_some_iff.mp hget).1] at hj
      cases hj
      exact .inr hout
    · rw [getElem?_set_ne hij] at hj
      exact (h.out j other hj).imp_right fun hrest => hrest.imp_right fun hbig => hsub hbig
  · rcases mem_or_eq_of_mem_set hb with hb | rfl
    · rcases mem_or_eq_of_mem_set ha with ha | rfl
      · exact h.behind a ha b hb hturn held hheld hne
      · exact h.behind room hroom b hb hturn held hheld hne
    · cases hturn

/-- The room with the fewest bytes gets a row. -/
theorem MaxMin.pick (h : MaxMin page) (hget : page.rooms[i]? = some room)
    (hturn : room.turn = true) (hleast : leastTurn page.rooms = some (i, room.given))
    (hbuf : room.buf = row :: tail) {rows left : ℕ} {stretched : Bool} :
    MaxMin ⟨page.rooms.set i room.pick, rows, left, page.tooBig, stretched⟩ := by
  have hroom : room ∈ page.rooms := mem_of_getElem? hget
  have hgiven : room.pick.given = bytes (room.picked ++ [row]) := by
    simp [Room.pick, hbuf, h.counted room hroom, bytes]
  have hmore : room.given ≤ room.pick.given := by
    rw [hgiven, h.counted room hroom]
    exact bytes_le_of_prefix (prefix_append _ _)
  refine ⟨fun other hother => ?_, fun j other hj => ?_, fun a ha b hb hb' held hheld hne => ?_⟩
  · rcases mem_or_eq_of_mem_set hother with hold | rfl
    · exact h.counted other hold
    · rw [hgiven, pick_picked hbuf]
  · by_cases hij : i = j
    · subst hij
      rw [List.getElem?_set_self (List.getElem?_eq_some_iff.mp hget).1] at hj
      cases hj
      exact .inl (pick_turn hturn)
    · rw [getElem?_set_ne hij] at hj
      exact h.out j other hj
  · -- it is enough to compare with what the others had before
    have hold : ∃ b' ∈ page.rooms, b'.turn = true ∧ b'.given ≤ b.given := by
      rcases mem_or_eq_of_mem_set hb with hb | rfl
      · exact ⟨b, hb, hb', le_rfl⟩
      · exact ⟨room, hroom, hturn, hmore⟩
    obtain ⟨b', hmem, hon, hle⟩ := hold
    refine le_trans ?_ hle
    rcases mem_or_eq_of_mem_set ha with ha | rfl
    · exact h.behind a ha b' hmem hon held hheld hne
    · rw [pick_picked hbuf] at hheld hne
      have hbefore : held <+: room.picked := (prefix_concat_iff.mp hheld).resolve_left hne
      calc bytes held ≤ bytes room.picked := bytes_le_of_prefix hbefore
        _ = room.given := (h.counted room hroom).symm
        _ ≤ b'.given := given_le_of_leastTurn hleast hmem hon

theorem MaxMin.serve (h : MaxMin page) (hget : page.rooms[i]? = some room)
    (hturn : room.turn = true) (hleast : leastTurn page.rooms = some (i, room.given)) :
    MaxMin (page.serve i room) :=
  serve_elim (fun hbuf => h.drop hget (Subset.refl _) (.inl hbuf))
    (fun _ _ _ _ => h.drop hget (subset_append_left _ _) (.inr (by simp)))
    fun _ _ hbuf _ _ => h.pick hget hturn hleast hbuf

theorem maxMin_rounds (db : Db) (u : Uin) (starts : List (GroupId × ℤ)) (limit fuel : ℕ) :
    MaxMin (rounds fuel (wholeStart db u starts limit)) := by
  refine rounds_inv ⟨fun room hroom => ?_, fun j room hj => ?_, fun h hh _ _ _ held hheld hne =>
    ?_⟩ fun page i room h _ hget hturn hleast => h.serve hget hturn hleast
  · obtain ⟨x, -, rfl⟩ := mem_map.mp hroom
    rfl
  · obtain ⟨x, -, rfl⟩ := mem_map.mp (mem_of_getElem? hj)
    exact .inl rfl
  · obtain ⟨x, -, rfl⟩ := mem_map.mp hh
    exact absurd (prefix_nil.mp hheld) hne

/-- The row that goes out alone is the first of its room, and no other room has one. -/
theorem picked_alone (hroom : room ∈ page.alone.rooms) :
    page.alone = page ∨ room.picked.length ≤ 1 := by
  unfold Page.alone at hroom ⊢
  split at hroom
  · rename_i hempty
    have hnone : ∀ other ∈ page.rooms, other.picked = [] := by simpa using hempty
    rw [if_pos hempty]
    split at hroom
    · exact .inl rfl
    · split at hroom
      · exact .inl rfl
      · rename_i hget
        right
        rcases mem_or_eq_of_mem_set hroom with hold | rfl
        · simp [hnone room hold]
        · have hfirst := hnone _ (mem_of_getElem? hget)
          unfold Room.pick
          split <;> simp [hfirst]
  · rename_i hempty
    exact .inl (if_neg hempty)

theorem fullPage_max_min {db : Db} {u : Uin} {starts : List (GroupId × ℤ)} {limit j : ℕ}
    {a g : Room} (ha : a ∈ (fullPage db u starts limit).rooms)
    (hg : (fullPage db u starts limit).rooms[j]? = some g) (hleft : g.buf ≠ [])
    (hj : j ∉ (fullPage db u starts limit).tooBig) {held later : List (ℤ × LogRow)}
    (hsplit : a.picked = held ++ row :: later) : bytes held ≤ bytes g.picked := by
  have hmax := maxMin_rounds db u starts limit (limit + starts.length)
  unfold fullPage at ha hg hj
  rcases picked_alone ha with hsame | hone
  · rw [hsame] at ha hg hj
    have hroom := mem_of_getElem? hg
    have hturn : g.turn = true := by
      rcases hmax.out j g hg with hturn | hbuf | hbig
      · exact hturn
      · exact absurd hbuf hleft
      · exact absurd hbig hj
    rw [← hmax.counted g hroom]
    refine hmax.behind a ha g hroom hturn held ⟨row :: later, hsplit.symm⟩ fun heq => ?_
    have hlength := congrArg length (heq.trans hsplit)
    simp at hlength
  · have hnil : held = [] := by
      rw [hsplit] at hone
      simp only [length_append, length_cons] at hone
      exact eq_nil_of_length_eq_zero (by omega)
    rw [hnil]
    exact Nat.zero_le _

/-- A page of no rows. -/
theorem exec_fairLogPage_zero (s : State) (u : Uin) (starts : List (GroupId × ℤ)) :
    ∃ more, (fairLogPage u starts 0).exec s = (.ok (starts.map fun x => (x.1, []), more), s) := by
  have hloop : ∀ chunk fuel, pageLoop u chunk fuel (.initial starts 0) =
      pure (.initial starts 0) := by
    intro chunk fuel
    cases fuel with
    | zero => rfl
    | succ fuel => exact if_pos rfl
  have halone : (Page.initial starts 0).alone = .initial starts 0 := by
    unfold Page.alone
    split <;> rfl
  unfold fairLogPage
  split
  · rename_i hnil
    subst hnil
    exact ⟨false, rfl⟩
  · refine ⟨(Page.initial starts 0).result.2, ?_⟩
    have hpicked : (Page.initial starts 0).result.1 = starts.map fun x => (x.1, []) := by
      simp [Page.result, Page.initial]
    rw [hloop, ← hpicked]
    exact congrArg (fun page : Page => (Except.ok page.result, s)) halone

/-- **The page is shared fairly.**  If a room got a row of the page when it held the rows `held` of
it, every room that has rows left, and was not dropped for a row that did not fit the budget, has
at least as many bytes. -/
theorem page_max_min_fair (s : State) (u : Uin) (starts : List (GroupId × ℤ)) (limit : ℕ) :
    ∃ out, (fairLogPage u starts limit).exec s = (.ok out, s) ∧
      ∀ (j : ℕ) h g x, h ∈ out.1 → out.1[j]? = some g → starts[j]? = some x →
        g.2 ≠ s.db.visibleRows u x.1 x.2 → j ∉ (fullPage s.db u starts limit).tooBig →
        ∀ held row later, h.2 = held ++ row :: later → bytes held ≤ bytes g.2 := by
  rcases Nat.eq_zero_or_pos limit with rfl | hlimit
  · obtain ⟨more, hexec⟩ := exec_fairLogPage_zero s u starts
    refine ⟨_, hexec, fun j h g x hh _ _ _ _ held row later hsplit => ?_⟩
    obtain ⟨y, -, rfl⟩ := mem_map.mp hh
    simp at hsplit
  · obtain ⟨more, hexec, -⟩ := exec_fairLogPage s u starts hlimit
    refine ⟨_, hexec, fun j h g x hh hg hx hleft hj held row later hsplit => ?_⟩
    obtain ⟨a, ha, rfl⟩ := mem_map.mp hh
    rw [getElem?_map] at hg
    obtain ⟨b, hb, rfl⟩ := map_eq_some_iff.mp hg
    refine fullPage_max_min ha hb (fun hbuf => hleft ?_) hj hsplit
    have hrows : (fullPage s.db u starts limit).rooms.map contents =
        starts.map fun x => (x.1, s.db.visibleRows u x.1 x.2) := contents_fullPage starts limit
    have hcontents := congrArg (·[j]?) hrows
    simp only [getElem?_map, hb, hx, map_some, some.injEq] at hcontents
    simpa [contents, hbuf] using congrArg Prod.snd hcontents

end RcqServer.RoomLog
