import Mathlib.Data.List.Basic

/-!
# Request programs over a transactional store

A request handler of a database-backed service is a sequence of statements with branching in
between.  Each statement runs atomically: it sees the committed database with the request's own
uncommitted writes on top, adds row writes to them, and may act on what lies outside the
transaction (sequences, clocks, sockets), which no rollback takes back.

`Prog` is the shallow embedding of such a handler, a free monad, so that handlers are written in
`do` notation in the order of their source.

| constructor | meaning |
| --- | --- |
| `ret a` | the handler returns `a` |
| `raise e` | the handler fails; what it has not committed is lost |
| `stmt l w x k` | one statement, labelled `l`, with row writes `w` and outside effect `x` |
| `commit l x k` | the pending writes become visible, together with the outside effect `x` |
| `rollback k` | the pending writes are dropped |
-/

namespace ReadCommitted

/-- How one row write acts on the database, and the row it locks until the transaction ends. -/
class Store (σ ω : Type) (κ : outParam Type) where
  apply : ω → σ → σ
  key : ω → κ

section Store

variable {σ ω κ : Type} [Store σ ω κ]

/-- The database with the writes `ws` applied, oldest first. -/
def applyAll (ws : List ω) (db : σ) : σ :=
  ws.foldl (fun d w => Store.apply w d) db

variable (σ) in
/-- The rows that the pending writes `ws` keep locked. -/
def lockedRows (ws : List ω) : List κ :=
  ws.map (Store.key σ)

@[simp] theorem applyAll_nil (db : σ) : applyAll ([] : List ω) db = db := rfl

theorem applyAll_cons (w : ω) (ws : List ω) (db : σ) :
    applyAll (w :: ws) db = applyAll ws (Store.apply w db) := rfl

theorem applyAll_append (ws new : List ω) (db : σ) :
    applyAll (ws ++ new) db = applyAll new (applyAll ws db) := by
  simp [applyAll]

theorem applyAll_concat (ws : List ω) (w : ω) (db : σ) :
    applyAll (ws ++ [w]) db = Store.apply w (applyAll ws db) := by
  rw [applyAll_append, applyAll_cons, applyAll_nil]

/-- A property of the database that every write of the list keeps. -/
theorem applyAll_inv {P : σ → Prop} {ws : List ω} {db : σ} (hdb : P db)
    (hstep : ∀ w ∈ ws, ∀ d, P d → P (Store.apply w d)) : P (applyAll ws db) := by
  induction ws generalizing db with
  | nil => exact hdb
  | cons w ws ih =>
    rw [applyAll_cons]
    refine ih (hstep w List.mem_cons_self db hdb) ?_
    exact fun v hv => hstep v (List.mem_cons_of_mem _ hv)

end Store

/-- A handler: statements, commits and rollbacks, ending in a value or in a failure. -/
inductive Prog (σ ε ω lbl err : Type) (α : Type) : Type
  | ret (a : α) : Prog σ ε ω lbl err α
  | raise (e : err) : Prog σ ε ω lbl err α
  | stmt (l : lbl) (w : σ → ε → List ω) (x : σ → ε → ε)
      (k : σ → ε → Prog σ ε ω lbl err α) : Prog σ ε ω lbl err α
  | commit (l : lbl) (x : ε → ε) (k : Prog σ ε ω lbl err α) : Prog σ ε ω lbl err α
  | rollback (k : Prog σ ε ω lbl err α) : Prog σ ε ω lbl err α

namespace Prog

variable {σ ε ω lbl err α β : Type}

/-- Sequencing: `f` continues where `p` returns. -/
def bind : Prog σ ε ω lbl err α → (α → Prog σ ε ω lbl err β) → Prog σ ε ω lbl err β
  | ret a, f => f a
  | raise e, _ => raise e
  | stmt l w x k, f => stmt l w x fun v e => (k v e).bind f
  | commit l x k, f => commit l x (k.bind f)
  | rollback k, f => rollback (k.bind f)

instance : Monad (Prog σ ε ω lbl err) where
  pure := ret
  bind := bind

/-- A statement that only reads. -/
def read (l : lbl) (q : σ → ε → α) : Prog σ ε ω lbl err α :=
  stmt l (fun _ _ => []) (fun _ e => e) fun v e => ret (q v e)

/-- A statement that writes the rows `w` and returns `q`, both computed from what it sees. -/
def write (l : lbl) (w : σ → ε → List ω) (q : σ → ε → α) : Prog σ ε ω lbl err α :=
  stmt l w (fun _ e => e) fun v e => ret (q v e)

/-- An effect outside the transaction. -/
def effect (l : lbl) (x : σ → ε → ε) : Prog σ ε ω lbl err Unit :=
  stmt l (fun _ _ => []) x fun _ _ => ret ()

/-- Run a part of the handler only under a condition. -/
def onlyIf (c : Prop) [Decidable c] (p : Prog σ ε ω lbl err Unit) : Prog σ ε ω lbl err Unit :=
  if c then p else ret ()

/-- Fail under a condition. -/
def raiseIf (c : Prop) [Decidable c] (e : err) : Prog σ ε ω lbl err Unit :=
  if c then raise e else ret ()

/-- `try`: a failure becomes a value, and what is pending stays so. -/
def attempt : Prog σ ε ω lbl err α → Prog σ ε ω lbl err (Except err α)
  | ret a => ret (.ok a)
  | raise e => ret (.error e)
  | stmt l w x k => stmt l w x fun v e => (k v e).attempt
  | commit l x k => commit l x k.attempt
  | rollback k => rollback k.attempt

/-- Return a value, or fail as it says. -/
def ofExcept : Except err α → Prog σ ε ω lbl err α
  | .ok a => ret a
  | .error e => raise e

/-- Commit with nothing else happening. -/
def commitOnly (l : lbl) : Prog σ ε ω lbl err Unit :=
  commit l id (ret ())

/-- The label of the next statement or commit, if the handler is about to run one. -/
def label? : Prog σ ε ω lbl err α → Option lbl
  | stmt l _ _ _ => some l
  | commit l _ _ => some l
  | _ => none

/-- The handler is about to commit. -/
def atCommit : Prog σ ε ω lbl err α → Bool
  | commit _ _ _ => true
  | _ => false

@[simp] theorem pure_eq (a : α) : (pure a : Prog σ ε ω lbl err α) = ret a := rfl

@[simp] theorem bind_eq (p : Prog σ ε ω lbl err α) (f : α → Prog σ ε ω lbl err β) :
    (p >>= f) = p.bind f := rfl

theorem attempt_bind (p : Prog σ ε ω lbl err α) (f : α → Prog σ ε ω lbl err β) :
    (p.bind f).attempt = p.attempt.bind fun
      | .ok a => (f a).attempt
      | .error e => ret (.error e) := by
  induction p with
  | ret a => rfl
  | raise e => rfl
  | stmt l w x k ih => simp only [bind, attempt, ih]
  | commit l x k ih => simp only [bind, attempt, ih]
  | rollback k ih => simp only [bind, attempt, ih]

theorem bind_assoc {γ : Type} (p : Prog σ ε ω lbl err α) (f : α → Prog σ ε ω lbl err β)
    (g : β → Prog σ ε ω lbl err γ) : (p.bind f).bind g = p.bind fun a => (f a).bind g := by
  induction p with
  | ret a => rfl
  | raise e => rfl
  | stmt l w x k ih => simp only [bind, ih]
  | commit l x k ih => simp only [bind, ih]
  | rollback k ih => simp only [bind, ih]

end Prog

/-- What all requests share: the committed database, the state outside every transaction, and
the committed states that came before, newest first. -/
structure Shared (σ ε : Type) where
  db : σ
  ext : ε
  hist : List σ

namespace Shared

variable {σ ε ω κ : Type} [Store σ ω κ]

/-- What a statement with pending writes `ws` sees. -/
def view (s : Shared σ ε) (ws : List ω) : σ :=
  applyAll ws s.db

/-- An effect outside the transaction. -/
def tell (s : Shared σ ε) (e : ε) : Shared σ ε :=
  { s with ext := e }

/-- The pending writes `ws` become visible; the state they replace joins the history. -/
def commit (s : Shared σ ε) (ws : List ω) (e : ε) : Shared σ ε where
  db := applyAll ws s.db
  ext := e
  hist := s.db :: s.hist

@[simp] theorem view_nil (s : Shared σ ε) : s.view ([] : List ω) = s.db := rfl
@[simp] theorem tell_db (s : Shared σ ε) (e : ε) : (s.tell e).db = s.db := rfl
@[simp] theorem tell_ext (s : Shared σ ε) (e : ε) : (s.tell e).ext = e := rfl
@[simp] theorem tell_same (s : Shared σ ε) : s.tell s.ext = s := rfl
@[simp] theorem commit_db (s : Shared σ ε) (ws : List ω) (e : ε) :
    (s.commit ws e).db = s.view ws := rfl
@[simp] theorem commit_ext (s : Shared σ ε) (ws : List ω) (e : ε) : (s.commit ws e).ext = e := rfl
@[simp] theorem commit_hist (s : Shared σ ε) (ws : List ω) (e : ε) :
    (s.commit ws e).hist = s.db :: s.hist := rfl

end Shared

end ReadCommitted
