import RcqServer.Basic
import Mathlib.Data.Finset.Card

/-!
# Who is live in an audio room

Redis has one set of live members for each room and one hash with the room that an account is pinned
to.  Entering sets both.  Everything that takes an account out of a room goes through
`evict_from_audio_room`, which removes the pin without a look at the room that it names: an owner who
kicks somebody from one room while they talk in another makes them look idle, and free to enter a
third.
-/

namespace RcqServer.AudioRooms

open Function

abbrev Room := ℕ

structure State where
  /-- `audio_rooms`, with their owners. -/
  owner : Room → Option Uin
  /-- `audio_room_memberships`. -/
  subscribed : Room → Uin → Bool
  /-- `room:user_active`. -/
  pin : Uin → Option Room
  /-- `room:{id}:members`. -/
  members : Room → Finset Uin

def maxRoomParticipants : ℕ := 8

/-- `evict_from_audio_room`. -/
def State.evict (s : State) (room : Room) (uin : Uin) : State :=
  { s with
    members := update s.members room ((s.members room).erase uin)
    pin := update s.pin uin none }

/-- `purge_audio_room`. -/
def State.purge (s : State) (room : Room) : State :=
  { s with
    members := update s.members room ∅
    pin := fun uin => if uin ∈ s.members room then none else s.pin uin }

/-- The membership row is deleted. -/
def State.unsubscribe (s : State) (room : Room) (uin : Uin) : State :=
  { s with subscribed := update s.subscribed room (update (s.subscribed room) uin false) }

/-- `room_enter`; `inCall` tells whether the account is in a 1:1 call. -/
def State.enter (s : State) (uin : Uin) (room : Room) (inCall : Bool) : State :=
  if room = 0 ∨ inCall ∨ (s.pin uin).any (· != room) then s
  else if s.owner room = none ∨ s.subscribed room uin = false then s
  else if uin ∈ s.members room then s
  else if maxRoomParticipants ≤ (s.members room).card then s
  else { s with
    members := update s.members room (insert uin (s.members room))
    pin := update s.pin uin (some room) }

inductive Request
  | enter (uin : Uin) (room : Room) (inCall : Bool)
  | leave (uin : Uin) (room : Room)
  | kick (me : Uin) (room : Room) (uin : Uin)
  | delete (me : Uin) (room : Room)
  | leaveMyList (uin : Uin) (room : Room)
  | disconnect (uin : Uin)

def State.serve (s : State) : Request → State
  | .enter uin room inCall => s.enter uin room inCall
  | .leave uin room => if room ≠ 0 ∧ uin ∈ s.members room then s.evict room uin else s
  | .kick me room uin =>
    if s.owner room ≠ some me ∨ uin = me ∨ s.subscribed room uin = false then s
    else (s.unsubscribe room uin).evict room uin
  | .delete me room =>
    if s.owner room ≠ some me then s
    else { s.purge room with
      owner := update s.owner room none
      subscribed := update s.subscribed room fun _ => false }
  | .leaveMyList uin room =>
    if s.subscribed room uin = false ∨ s.owner room = some uin then s
    else s.unsubscribe room uin
  | .disconnect uin => (s.pin uin).elim s fun room => s.evict room uin

/-- The states that a run leads to whose requests meet a condition; nobody is live at first. -/
inductive Reachable (ok : State → Request → Prop) : State → Prop
  | idle (owner subscribed) : Reachable ok ⟨owner, subscribed, fun _ => none, fun _ => ∅⟩
  | serve {s : State} {r : Request} : Reachable ok s → ok s r → Reachable ok (s.serve r)

/-- The pins name the rooms that accounts are live in. -/
def InStep (s : State) : Prop := ∀ u room, s.pin u = some room ↔ u ∈ s.members room

/-- The room that a request is a kick from or the deletion of. -/
def Request.clears : Request → Option Room
  | .kick _ room _ | .delete _ room => some room
  | _ => none

/-- Nobody is kicked from one room while live in another. -/
def KicksThere (s : State) : Request → Prop
  | .kick _ room uin => ∀ pinned ∈ s.pin uin, pinned = room
  | _ => True

variable {s : State} {room : Room} {uin : Uin}

theorem InStep.evict (h : InStep s) (hpin : ∀ pinned ∈ s.pin uin, pinned = room) :
    InStep (s.evict room uin) := by
  intro u r
  have hpinned := h u r
  by_cases hu : u = uin
  · subst hu
    by_cases hr : r = room
    · simp [State.evict, hr]
    · have hnot : s.pin u ≠ some r := fun heq => hr (hpin r heq)
      simpa [State.evict, hr] using fun hmem => hnot (hpinned.mpr hmem)
  · by_cases hr : r = room
    · simpa [State.evict, hu, hr] using hr ▸ hpinned
    · simpa [State.evict, hu, hr] using hpinned

theorem InStep.purge (h : InStep s) : InStep (s.purge room) := by
  intro u r
  by_cases hr : r = room
  · subst hr
    simpa [State.purge] using fun hnot heq => hnot ((h u r).mp heq)
  · have hnot : u ∈ s.members room → s.pin u ≠ some r :=
      fun hmem heq => hr (Option.some_injective _ (heq.symm.trans ((h u room).mpr hmem)))
    simp only [State.purge, update_of_ne hr, ← h u r]
    split
    · simp [hnot ‹_›]
    · rfl

theorem InStep.enter (h : InStep s) (inCall : Bool) : InStep (s.enter uin room inCall) := by
  unfold State.enter
  split_ifs with hbusy _ hmem _
  all_goals try exact h
  -- An account pinned elsewhere is busy, and one pinned here is live here.
  have hnone : s.pin uin = none := by
    refine Option.eq_none_iff_forall_ne_some.mpr fun pinned heq => ?_
    have hhere : pinned = room := by simp_all
    exact hmem ((h uin room).mp (hhere ▸ heq))
  intro u r
  have hpinned := h u r
  by_cases hu : u = uin
  · subst hu
    by_cases hr : r = room
    · simp [hr]
    · simpa [hr, Ne.symm hr, hnone] using hpinned
  · by_cases hr : r = room
    · simpa [hu, hr] using hr ▸ hpinned
    · simpa [hu, hr] using hpinned

theorem InStep.serve {q : Request} (h : InStep s) (hok : KicksThere s q) : InStep (s.serve q) := by
  cases q with
  | enter uin room inCall => exact h.enter inCall
  | leave uin room =>
    simp only [State.serve]
    split_ifs with hlive
    · refine h.evict fun pinned heq => ?_
      exact Option.some_injective _ (heq.symm.trans ((h uin room).mpr hlive.2))
    · exact h
  | kick me room uin =>
    simp only [State.serve]
    split_ifs
    · exact h
    · exact InStep.evict (s := s.unsubscribe room uin) h hok
  | delete me room =>
    simp only [State.serve]
    split_ifs
    · exact h
    · exact h.purge
  | leaveMyList uin room =>
    simp only [State.serve]
    split_ifs <;> exact h
  | disconnect uin =>
    cases hpin : s.pin uin with
    | none => simpa [State.serve, hpin] using h
    | some room => simpa [State.serve, hpin] using h.evict (by simp [hpin])

theorem Reachable.inStep (h : Reachable KicksThere s) : InStep s := by
  induction h with
  | idle => exact fun u room => by simp
  | serve _ hok ih => exact ih.serve hok

theorem State.members_serve_of_clears {q : Request} (hq : room ∈ q.clears) {r : Room}
    (hr : r ≠ room) : (s.serve q).members r = s.members r := by
  cases q <;> simp only [Request.clears, Option.mem_def, reduceCtorEq, Option.some.injEq] at hq
  all_goals
    simp only [serve]
    split_ifs <;> simp [evict, purge, unsubscribe, hq, hr]

/-- An account is pinned to the room it is live in, which is one room at most, and a kick or a
deletion touches the presence in no other room. -/
theorem live_in_step_with_pins (h : Reachable KicksThere s) :
    InStep s ∧ (∀ u r r', u ∈ s.members r → u ∈ s.members r' → r = r') ∧
      ∀ q, KicksThere s q → ∀ room ∈ q.clears, ∀ r ≠ room, ∀ u,
        (u ∈ (s.serve q).members r ↔ u ∈ s.members r) ∧
          ((s.serve q).pin u = some r ↔ s.pin u = some r) := by
  have hin := h.inStep
  refine ⟨hin, fun u r r' hr hr' => ?_, fun q hok room hq r hr u => ?_⟩
  · exact Option.some_injective _ (((hin u r).mpr hr).symm.trans ((hin u r').mpr hr'))
  · have hsame : (s.serve q).members r = s.members r := State.members_serve_of_clears hq hr
    rw [hin.serve hok u r, hin u r, hsame]
    exact ⟨Iff.rfl, Iff.rfl⟩

/-- Account 10 owns the rooms 1, 2 and 3, and account 30 has all of them on its list. -/
def threeRooms : State :=
  ⟨fun room => if room ∈ [1, 2, 3] then some 10 else none, fun _ uin => uin == 30,
    fun _ => none, fun _ => ∅⟩

theorem live_in_step_with_pins_kicked :
    30 ∈ (threeRooms.serve (.enter 30 1 false)).members 1 ∧
      InStep ((threeRooms.serve (.enter 30 1 false)).serve (.kick 10 1 30)) := by
  refine ⟨by decide, (live_in_step_with_pins (.serve (.serve (.idle _ _) ?_) ?_)).1⟩
  · exact trivial
  · unfold KicksThere
    decide

/-- Kicked from the first room while live in the second, the account is live there without a pin,
and enters the third. -/
theorem kick_elsewhere_unpins :
    ∃ s, Reachable (fun _ _ => True) s ∧ 30 ∈ s.members 2 ∧ s.pin 30 = some 2 ∧
      30 ∈ (s.serve (.kick 10 1 30)).members 2 ∧ (s.serve (.kick 10 1 30)).pin 30 = none ∧
      30 ∈ ((s.serve (.kick 10 1 30)).serve (.enter 30 3 false)).members 2 ∧
      30 ∈ ((s.serve (.kick 10 1 30)).serve (.enter 30 3 false)).members 3 :=
  ⟨threeRooms.serve (.enter 30 2 false), .serve (.idle _ _) trivial, by decide⟩

end RcqServer.AudioRooms
