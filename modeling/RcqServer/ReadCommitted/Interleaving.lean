import RcqServer.ReadCommitted.Program
import Mathlib.Logic.Relation
import Mathlib.Data.List.Nodup

/-!
# Interleavings at READ COMMITTED

A `World` is a committed database, the state outside the transactions, and one session per
request that has been started.  An `Action` starts a request, runs the next statement of a
session, or kills a session (a crash, a dropped connection): what a killed session had not
committed is gone, what it did outside the transaction stays.

* A statement sees the rows committed so far and the session's own pending writes.
* A row that a session has written stays locked until the session commits, rolls back or ends.
  A statement that writes a locked row waits: `World.next` has no result for it.

`World.Run ok w w'` are the runs from `w` to `w'` all of whose actions satisfy the scheduling
condition `ok`; without a condition, every schedule is a run.
-/

namespace ReadCommitted

open Option

variable {σ ε ω κ lbl err ρ α : Type} [Store σ ω κ]

/-- One request in progress, or how it ended. -/
inductive Session (σ ε ω lbl err ρ α : Type) : Type
  | running (r : ρ) (p : Prog σ ε ω lbl err α) (ws : List ω)
  | finished (r : ρ) (a : α)
  | refused (r : ρ) (e : err)
  | killed (r : ρ)

/-- The rows that a session keeps locked. -/
def Session.locked : Session σ ε ω lbl err ρ α → List κ
  | .running _ _ ws => lockedRows σ ws
  | _ => []

/-- The writes that a session has not committed yet. -/
def Session.pending : Session σ ε ω lbl err ρ α → List ω
  | .running _ _ ws => ws
  | _ => []

/-- The request of a running session and the label of the statement it runs next. -/
def Session.upcoming : Session σ ε ω lbl err ρ α → Option (ρ × lbl)
  | .running r p _ => p.label?.map fun l => (r, l)
  | _ => none

/-- The session is running and a commit is next. -/
def Session.committing : Session σ ε ω lbl err ρ α → Bool
  | .running _ p _ => p.atCommit
  | _ => false

/-- What a session that has ended well has answered. -/
def Session.answer? : Session σ ε ω lbl err ρ α → Option α
  | .finished _ a => some a
  | _ => none

/-- The request that a session serves. -/
def Session.request : Session σ ε ω lbl err ρ α → ρ
  | .running r _ _ => r
  | .finished r _ => r
  | .refused r _ => r
  | .killed r => r

/-- Everything there is: the shared state, the sessions by number, and for every commit the
number of the session that made it, newest first. -/
structure World (σ ε ω lbl err ρ α : Type) where
  shared : Shared σ ε
  sessions : List (Session σ ε ω lbl err ρ α)
  log : List ℕ

inductive Action (ρ : Type) : Type
  | start (r : ρ)
  | step (n : ℕ)
  | kill (n : ℕ)

namespace World

/-- A world in which nothing has been asked yet. -/
def fresh (db : σ) (ext : ε) : World σ ε ω lbl err ρ α where
  shared := ⟨db, ext, []⟩
  sessions := []
  log := []

/-- The rows that session `m` keeps locked. -/
def locked (w : World σ ε ω lbl err ρ α) (m : ℕ) : List κ :=
  (w.sessions[m]?.map Session.locked).getD []

/-- What session `n` is about to run. -/
def upcoming (w : World σ ε ω lbl err ρ α) (n : ℕ) : Option (ρ × lbl) :=
  w.sessions[n]?.bind Session.upcoming

/-- What session `n` has answered. -/
def answer? (w : World σ ε ω lbl err ρ α) (n : ℕ) : Option α :=
  w.sessions[n]?.bind Session.answer?

/-- The request that session `n` serves. -/
def request? (w : World σ ε ω lbl err ρ α) (n : ℕ) : Option ρ :=
  w.sessions[n]?.map Session.request

/-- Session `n` is about to commit. -/
def committing (w : World σ ε ω lbl err ρ α) (n : ℕ) : Bool :=
  w.sessions[n]?.any Session.committing

/-- The writes that session `m` has not committed yet. -/
def pending (w : World σ ε ω lbl err ρ α) (m : ℕ) : List ω :=
  (w.sessions[m]?.map Session.pending).getD []

/-- No session other than `n` has locked a row that `new` writes. -/
def LocksFree (w : World σ ε ω lbl err ρ α) (n : ℕ) (new : List ω) : Prop :=
  ∀ m < w.sessions.length, m ≠ n → ∀ k ∈ w.locked m, k ∉ lockedRows σ new

instance [DecidableEq κ] (w : World σ ε ω lbl err ρ α) (n : ℕ) (new : List ω) :
    Decidable (w.LocksFree n new) :=
  inferInstanceAs (Decidable (∀ m < _, _))

variable [DecidableEq κ]

/-- Session `n` goes on as `s`, nothing else changes. -/
def put (w : World σ ε ω lbl err ρ α) (n : ℕ) (s : Session σ ε ω lbl err ρ α) :
    World σ ε ω lbl err ρ α :=
  { w with sessions := w.sessions.set n s }

/-- Session `n`, which serves `r` and has the pending writes `ws`, runs the head of its
program. -/
def runHead (w : World σ ε ω lbl err ρ α) (n : ℕ) (r : ρ) (ws : List ω) :
    Prog σ ε ω lbl err α → Option (World σ ε ω lbl err ρ α)
  | .ret a => some (w.put n (.finished r a))
  | .raise e => some (w.put n (.refused r e))
  | .stmt _ f x k =>
    let v := w.shared.view ws
    let e := w.shared.ext
    if w.LocksFree n (f v e) then
      some { w.put n (.running r (k v e) (ws ++ f v e)) with shared := w.shared.tell (x v e) }
    else none
  | .commit _ x k =>
    some { w.put n (.running r k []) with
      shared := w.shared.commit ws (x w.shared.ext)
      log := n :: w.log }
  | .rollback k => some (w.put n (.running r k []))

/-- The world after an action, if the action can happen. -/
def next (handler : ρ → Prog σ ε ω lbl err α) (w : World σ ε ω lbl err ρ α) :
    Action ρ → Option (World σ ε ω lbl err ρ α)
  | .start r => some { w with sessions := w.sessions ++ [.running r (handler r) []] }
  | .step n =>
    match w.sessions[n]? with
    | some (.running r p ws) => w.runHead n r ws p
    | _ => none
  | .kill n =>
    match w.sessions[n]? with
    | some (.running r _ _) => some (w.put n (.killed r))
    | _ => none

/-- The runs all of whose actions satisfy `ok`. -/
def Run (handler : ρ → Prog σ ε ω lbl err α) (ok : World σ ε ω lbl err ρ α → Action ρ → Prop) :
    World σ ε ω lbl err ρ α → World σ ε ω lbl err ρ α → Prop :=
  Relation.ReflTransGen fun w w' => ∃ a, ok w a ∧ w.next handler a = some w'

/-! ## Inversion of an action -/

variable {handler : ρ → Prog σ ε ω lbl err α} {w w' : World σ ε ω lbl err ρ α} {n : ℕ}

theorem next_step_cases (hnext : w.next handler (.step n) = some w') :
    ∃ r p ws, w.sessions[n]? = some (.running r p ws) ∧ w.runHead n r ws p = some w' := by
  simp only [next] at hnext
  split at hnext
  · exact ⟨_, _, _, ‹_›, hnext⟩
  · cases hnext

theorem next_kill_cases (hnext : w.next handler (.kill n) = some w') :
    ∃ r p ws, w.sessions[n]? = some (.running r p ws) ∧ w' = w.put n (.killed r) := by
  simp only [next] at hnext
  split at hnext
  · exact ⟨_, _, _, ‹_›, (some.inj hnext).symm⟩
  · cases hnext

omit [DecidableEq κ] [Store σ ω κ] in
variable {r : ρ} {ok : World σ ε ω lbl err ρ α → Action ρ → Prop} {p : Prog σ ε ω lbl err α}
  {ws : List ω} {m : ℕ} {l : lbl} {a : Action ρ}

theorem upcoming_of_running (hn : w.sessions[n]? = some (.running r p ws)) (hl : l ∈ p.label?) :
    w.upcoming n = some (r, l) := by
  simp [upcoming, hn, Session.upcoming, mem_def.mp hl]

omit [DecidableEq κ] [Store σ ω κ] in
theorem committing_of_running
    (hn : w.sessions[n]? = some (.running r p ws)) (hcommit : p.atCommit) : w.committing n := by
  simp [committing, hn, Session.committing, hcommit]

theorem put_get? (m : ℕ) (s : Session σ ε ω lbl err ρ α) :
    (w.put n s).sessions[m]? = if n = m then w.sessions[m]?.map fun _ => s else w.sessions[m]? := by
  simp only [put, List.getElem?_set]
  split
  · rename_i hnm
    subst hnm
    by_cases hlt : n < w.sessions.length
    · simp [hlt]
    · simp [hlt]
  · rfl

theorem put_get?_self {s s' : Session σ ε ω lbl err ρ α} (hs : w.sessions[n]? = some s') :
    (w.put n s).sessions[n]? = some s := by
  simp [put_get?, hs]

theorem put_get?_ne (hm : n ≠ m) (s : Session σ ε ω lbl err ρ α) :
    (w.put n s).sessions[m]? = w.sessions[m]? := by
  simp [put_get?, hm]

/-- A step of one session leaves every other session as it is. -/
theorem runHead_get?_ne (hm : n ≠ m)
    (hrun : w.runHead n r ws p = some w') : w'.sessions[m]? = w.sessions[m]? := by
  cases p with
  | ret a =>
    obtain rfl := some.inj hrun
    exact put_get?_ne hm _
  | raise e =>
    obtain rfl := some.inj hrun
    exact put_get?_ne hm _
  | stmt l f x k =>
    simp only [runHead, ite_none_right_eq_some, some.injEq] at hrun
    obtain ⟨-, rfl⟩ := hrun
    exact put_get?_ne hm _
  | commit l x k =>
    simp only [runHead, some.injEq] at hrun
    subst hrun
    exact put_get?_ne hm _
  | rollback k =>
    obtain rfl := some.inj hrun
    exact put_get?_ne hm _

/-! ## Executable schedules -/

/-- Follow a schedule.  An action that cannot happen is passed over. -/
def play (handler : ρ → Prog σ ε ω lbl err α) (w : World σ ε ω lbl err ρ α) :
    List (Action ρ) → World σ ε ω lbl err ρ α
  | [] => w
  | a :: rest => ((w.next handler a).getD w).play handler rest

/-- Every action of a schedule satisfies `ok` where it happens. -/
def Obeys (handler : ρ → Prog σ ε ω lbl err α) (ok : World σ ε ω lbl err ρ α → Action ρ → Prop)
    (w : World σ ε ω lbl err ρ α) : List (Action ρ) → Prop
  | [] => True
  | a :: rest => ok w a ∧ ((w.next handler a).getD w).Obeys handler ok rest

instance Obeys.decidable {ok : World σ ε ω lbl err ρ α → Action ρ → Prop}
    [∀ w a, Decidable (ok w a)] :
    ∀ (w : World σ ε ω lbl err ρ α) (schedule : List (Action ρ)),
      Decidable (w.Obeys handler ok schedule)
  | _, [] => isTrue trivial
  | w, a :: rest =>
    have : Decidable (((w.next handler a).getD w).Obeys handler ok rest) :=
      Obeys.decidable _ rest
    inferInstanceAs (Decidable (_ ∧ _))

/-- An action that can happen leads where a schedule of this one action does. -/
theorem next_eq_play (h : (w.next handler a).isSome) :
    w.next handler a = some (w.play handler [a]) := by
  obtain ⟨w', hw'⟩ := isSome_iff_exists.mp h
  simp [play, hw']

/-- A schedule that obeys the condition gives a run. -/
theorem Run.of_play (schedule : List (Action ρ))
    (hok : w.Obeys handler ok schedule) : Run handler ok w (w.play handler schedule) := by
  induction schedule generalizing w with
  | nil => exact .refl
  | cons a rest ih =>
    have hrest := ih hok.2
    cases hnext : w.next handler a with
    | none =>
      rw [hnext] at hrest
      rw [play, hnext]
      exact hrest
    | some w' =>
      rw [hnext] at hrest
      rw [play, hnext]
      exact .head ⟨a, hok.1, hnext⟩ hrest

/-- How often an action that `counts` is about happens in a schedule. -/
def tally (handler : ρ → Prog σ ε ω lbl err α) (counts : World σ ε ω lbl err ρ α → Action ρ → Bool)
    (w : World σ ε ω lbl err ρ α) : List (Action ρ) → ℕ
  | [] => 0
  | a :: rest =>
    match w.next handler a with
    | none => w.tally handler counts rest
    | some w' => (counts w a).toNat + w'.tally handler counts rest

/-- A measure that every action raises by what it counts for. -/
theorem tally_le {w₀ : World σ ε ω lbl err ρ α} {counts : World σ ε ω lbl err ρ α → Action ρ → Bool}
    {measure : World σ ε ω lbl err ρ α → ℕ}
    (hstep : ∀ w a w', Run handler ok w₀ w → ok w a → w.next handler a = some w' →
      measure w + (counts w a).toNat ≤ measure w')
    (hrun : Run handler ok w₀ w) (schedule : List (Action ρ)) (hok : w.Obeys handler ok schedule) :
    measure w + w.tally handler counts schedule ≤ measure (w.play handler schedule) := by
  induction schedule generalizing w with
  | nil => exact Nat.le_refl _
  | cons a rest ih =>
    obtain ⟨ha, hrest⟩ := hok
    rw [tally, play]
    cases hnext : w.next handler a with
    | none =>
      rw [hnext] at hrest
      exact ih hrun hrest
    | some w' =>
      rw [hnext] at hrest
      have hfirst := hstep w a w' hrun ha hnext
      have hothers := ih (hrun.tail ⟨a, ha, hnext⟩) hrest
      simp only [getD_some] at hothers ⊢
      omega

theorem hist_ne_of_committing (hcommit : w.committing n)
    (hnext : w.next handler (.step n) = some w') : w'.shared.hist ≠ w.shared.hist := by
  obtain ⟨r, p, ws, hn, hhead⟩ := next_step_cases hnext
  simp only [committing, hn, any_some, Session.committing] at hcommit
  cases p with
  | commit l x k =>
    obtain rfl := some.inj hhead
    exact List.cons_ne_self _ _
  | _ => cases hcommit

/-! ## Sessions and their requests -/

omit [DecidableEq κ] [Store σ ω κ] in
/-- After a start a session is an old one, or the new one at the end. -/
theorem get?_start {x y : Session σ ε ω lbl err ρ α} (hm : (w.sessions ++ [x])[m]? = some y) :
    w.sessions[m]? = some y ∨ m = w.sessions.length ∧ y = x := by
  rcases Nat.lt_trichotomy m w.sessions.length with hlt | rfl | hgt
  · rw [List.getElem?_append_left hlt] at hm
    exact .inl hm
  · rw [List.getElem?_concat_length] at hm
    exact .inr ⟨rfl, (some.inj hm).symm⟩
  · rw [List.getElem?_eq_none (by simp; omega)] at hm
    cases hm

omit [DecidableEq κ] [Store σ ω κ] in
theorem request?_of_running
    (hn : w.sessions[n]? = some (.running r p ws)) : w.request? n = some r := by
  simp [request?, hn, Session.request]

omit [DecidableEq κ] [Store σ ω κ] in
theorem request?_of_upcoming (hn : w.upcoming n = some (r, l)) : w.request? n = some r := by
  obtain ⟨x, hx, hup⟩ := bind_eq_some_iff.mp hn
  cases x with
  | running r' p ws =>
    simp only [Session.upcoming, map_eq_some_iff, Prod.mk.injEq] at hup
    obtain ⟨-, -, rfl, -⟩ := hup
    exact request?_of_running hx
  | _ => cases hup

private theorem request?_put {s s' : Session σ ε ω lbl err ρ α}
    (hs : w.sessions[m]? = some s) (hsame : s'.request = s.request) :
    (w.put m s').request? n = w.request? n := by
  simp only [request?, put_get?]
  split
  · rename_i hnm
    subst hnm
    simp [hs, hsame]
  · rfl

private theorem request?_runHead
    (hm : w.sessions[m]? = some (.running r p ws)) (hrun : w.runHead m r ws p = some w') :
    w'.request? n = w.request? n := by
  cases p with
  | stmt l f x k =>
    simp only [runHead, ite_none_right_eq_some, some.injEq] at hrun
    obtain ⟨-, rfl⟩ := hrun
    exact request?_put hm rfl
  | _ =>
    obtain rfl := some.inj hrun
    exact request?_put hm rfl

/-- An action leaves every session with its request; a start adds one session. -/
theorem request?_next (hnext : w.next handler a = some w') : w'.request? n = w.request? n ∨
      ∃ r, a = .start r ∧ n = w.sessions.length ∧ w'.request? n = some r := by
  cases a with
  | start r =>
    obtain rfl := some.inj hnext
    rcases Nat.lt_trichotomy n w.sessions.length with hlt | heq | hgt
    · exact .inl (by simp only [request?, List.getElem?_append_left hlt])
    · exact .inr ⟨r, rfl, heq, by simp [request?, heq, Session.request]⟩
    · refine .inl ?_
      rw [request?, request?, List.getElem?_eq_none (by simp; omega),
        List.getElem?_eq_none (by omega)]
  | step m =>
    obtain ⟨r, p, ws, hm, hhead⟩ := next_step_cases hnext
    exact .inl (request?_runHead hm hhead)
  | kill m =>
    obtain ⟨r, p, ws, hm, rfl⟩ := next_kill_cases hnext
    exact .inl (request?_put hm rfl)

omit [DecidableEq κ] [Store σ ω κ] in
theorem lt_length_of_request? (hn : w.request? n = some r) : n < w.sessions.length := by
  obtain ⟨x, hx, -⟩ := map_eq_some_iff.mp hn
  exact (List.getElem?_eq_some_iff.mp hx).1

/-- A session keeps its request. -/
theorem Run.request
    (hrun : Run handler ok w w') (hn : w.request? n = some r) : w'.request? n = some r := by
  induction hrun with
  | refl => exact hn
  | tail _ hlast ih =>
    obtain ⟨a, -, hnext⟩ := hlast
    rcases request?_next (n := n) hnext with hsame | ⟨-, -, heq, -⟩
    · exact hsame.trans ih
    · have hlt := lt_length_of_request? ih
      omega

/-- What every started request satisfies, every session's request satisfies. -/
theorem request_of_run {P : ρ → Prop} (hstart : ∀ w r, ok w (.start r) → P r) {db : σ} {ext : ε}
    (hrun : Run handler ok (fresh db ext) w) (hn : w.upcoming n = some (r, l)) : P r := by
  suffices hall : ∀ r, w.request? n = some r → P r from hall r (request?_of_upcoming hn)
  clear hn
  induction hrun with
  | refl =>
    intro r hr
    simp [fresh, request?] at hr
  | tail _ hlast ih =>
    obtain ⟨a, hok, hnext⟩ := hlast
    intro r hr
    rcases request?_next (n := n) hnext with hsame | ⟨r', rfl, -, hnew⟩
    · exact ih r (hsame ▸ hr)
    · obtain rfl := some.inj (hnew.symm.trans hr)
      exact hstart _ _ hok

theorem next_length_le (hnext : w.next handler a = some w') :
    w.sessions.length ≤ w'.sessions.length := by
  cases a with
  | start r =>
    simp only [next, some.injEq] at hnext
    subst hnext
    simp
  | step n =>
    obtain ⟨r, p, ws, -, hhead⟩ := next_step_cases hnext
    cases p with
    | stmt l f x k =>
      simp only [runHead, ite_none_right_eq_some, some.injEq] at hhead
      obtain ⟨-, rfl⟩ := hhead
      simp [put]
    | _ =>
      simp only [runHead, some.injEq] at hhead
      subst hhead
      simp [put]
  | kill n =>
    obtain ⟨r, p, ws, -, rfl⟩ := next_kill_cases hnext
    simp [put]

theorem Run.length_le (hrun : Run handler ok w w') : w.sessions.length ≤ w'.sessions.length := by
  induction hrun with
  | refl => exact Nat.le_refl _
  | tail _ hlast ih =>
    obtain ⟨a, -, hnext⟩ := hlast
    exact Nat.le_trans ih (next_length_le hnext)

/-- No action of a run concerns a session that is not there at its end. -/
theorem Run.bounded (hrun : Run handler ok w w') :
    Run handler (fun v a => ok v a ∧ v.sessions.length ≤ w'.sessions.length) w w' := by
  induction hrun using Relation.ReflTransGen.head_induction_on with
  | refl => exact .refl
  | head hfirst hrest ih =>
    obtain ⟨a, ha, hnext⟩ := hfirst
    exact .head ⟨a, ⟨ha, Nat.le_trans (next_length_le hnext) (Run.length_le hrest)⟩, hnext⟩ ih

theorem Run.mono {ok' : World σ ε ω lbl err ρ α → Action ρ → Prop}
    (hok : ∀ w a, ok w a → ok' w a) (hrun : Run handler ok w w') : Run handler ok' w w' :=
  Relation.ReflTransGen.mono (fun _ _ ⟨a, ha, hnext⟩ => ⟨a, hok _ a ha, hnext⟩) _ _ hrun

end World

/-- Let session `n` take up to `k` steps. -/
def steps (n k : ℕ) : List (Action ρ) :=
  List.replicate k (.step n)

end ReadCommitted
