import Mathlib.Data.Finset.Basic

/-!
# The bookkeeping of pushes

A delivery hands its outcomes to `_queue_health`, which adds them to the pending batch and starts a flush
unless there is one that is not done.  The flush sleeps, drains the batch and writes what it has drained.
While it writes it is not done and will not drain again: an outcome that arrives then stays where it is
until some later push.
-/

namespace RcqServer.PushHealth

/-- Outcomes, by the ids of the device tokens: stamps of success, failures with their details, and dead
endpoints. -/
structure Batch where
  ok : Finset ℕ
  failed : List (ℕ × String)
  dead : Finset ℕ
deriving DecidableEq

def Batch.empty : Batch := ⟨∅, [], ∅⟩

def Batch.add (b new : Batch) : Batch := ⟨b.ok ∪ new.ok, b.failed ++ new.failed, b.dead ∪ new.dead⟩

/-- Where the task `_health_flush` is. -/
inductive Flush
  | sleeping
  | writing (batch : Batch)
  | done
deriving DecidableEq

structure State where
  pending : Batch
  flush : Option Flush
  /-- The batches that were committed. -/
  written : List Batch
deriving DecidableEq

def State.initial : State := ⟨.empty, none, []⟩

inductive Action
  /-- A delivery task calls `_queue_health`. -/
  | queue (outcome : Batch)
  /-- The flush has slept, and drains the batch. -/
  | drain
  /-- `_record_health` returns, whether or not the database took the batch. -/
  | recorded (fails : Bool)

def State.next (s : State) : Action → State
  | .queue outcome =>
    if outcome = .empty then s
    else
      { s with
        pending := s.pending.add outcome
        flush := if s.flush = none ∨ s.flush = some .done then some .sleeping else s.flush }
  | .drain =>
    match s.flush with
    | some .sleeping => { s with pending := .empty, flush := some (.writing s.pending) }
    | _ => s
  | .recorded fails =>
    match s.flush with
    | some (.writing batch) =>
      { s with flush := some .done, written := if fails then s.written else s.written ++ [batch] }
    | _ => s

inductive Reachable (ok : State → Action → Prop) : State → Prop
  | initial : Reachable ok .initial
  | next {s : State} {a : Action} : Reachable ok s → ok s a → Reachable ok (s.next a)

/-- No outcome arrives between the drain of a flush and its end. -/
def NotWhileWriting (s : State) : Action → Prop
  | .queue outcome => outcome ≠ .empty → ∀ batch, s.flush ≠ some (.writing batch)
  | _ => True

variable {s : State}

theorem flush_queue {outcome : Batch} (hnew : outcome ≠ .empty)
    (hflush : ∀ batch, s.flush ≠ some (.writing batch)) :
    (s.next (.queue outcome)).flush = some .sleeping := by
  simp only [State.next, if_neg hnew]
  rcases hphase : s.flush with _ | _ | batch | _
  · rfl
  · rfl
  · exact absurd hphase (hflush batch)
  · rfl

/-- **What is pending will be drained**, as long as no outcome arrives while a flush writes: there is a
flush that still sleeps, and its next step takes the whole batch to the database. -/
theorem pending_has_flush (h : Reachable NotWhileWriting s) (hpending : s.pending ≠ .empty) :
    s.flush = some .sleeping ∧ s.next .drain = ⟨.empty, some (.writing s.pending), s.written⟩ := by
  suffices hsleeping : s.flush = some .sleeping by
    refine ⟨hsleeping, ?_⟩
    simp only [State.next, hsleeping]
  induction h with
  | initial => exact absurd rfl hpending
  | @next s a _ hok ih =>
    cases a with
    | queue outcome =>
      by_cases hnew : outcome = .empty
      · simp only [State.next, if_pos hnew] at hpending ⊢
        exact ih hpending
      · exact flush_queue hnew (hok hnew)
    | drain =>
      simp only [State.next] at hpending ⊢
      split at hpending
      · exact absurd rfl hpending
      · exact ih hpending
    | recorded fails =>
      simp only [State.next] at hpending ⊢
      split at hpending
      · -- a flush that writes has drained the batch, and nothing has come since
        rename_i hflush
        exact absurd (hflush.symm.trans (ih hpending)) (by simp)
      · exact ih hpending

/-- One endpoint is dead. -/
def dead : Batch := ⟨∅, [], {7}⟩

theorem pending_has_flush_once : (State.initial.next (.queue dead)).flush = some .sleeping :=
  have hrun : Reachable NotWhileWriting (State.initial.next (.queue dead)) :=
    .next .initial fun _ _ => by simp [State.initial]
  (pending_has_flush hrun (by decide)).1

/-- An outcome arrives while a flush writes.  Nothing but another push moves it. -/
theorem outcome_stays_pending : ∃ s, Reachable (fun _ _ => True) s ∧ s.pending = dead ∧
    s.next .drain = s ∧ ∀ fails, s.next (.recorded fails) = s :=
  ⟨_, .next (a := .recorded false) (.next (a := .queue dead) (.next (a := .drain)
    (.next (a := .queue ⟨{1}, [], ∅⟩) .initial trivial) trivial) trivial) trivial,
    by decide, by decide, by decide⟩

end RcqServer.PushHealth
