import RcqServer.ReadCommitted.Frame

/-!
# Requests one after the other

`Prog.run` runs a handler alone to its end, and `Serial` are the histories in which every request
is served before the next one starts.  `Prog.wlp` is the weakest precondition for a handler that
runs alone: `Q` is to hold where it returns, `R` where it fails.  Its rules are those of
`Outline.wp` without anybody in between, so most of them hold by computation.

An invariant of the database alone is carried through a handler as `Both P`: it holds of what is
committed, which is what a failure leaves, and of what the transaction sees, which is what a
commit leaves.
-/

namespace ReadCommitted

variable {σ ε ω κ lbl err ρ α β : Type} [Store σ ω κ]

namespace Prog

/-- Run a handler alone, from the pending writes `ws`, to its end. -/
def run : Prog σ ε ω lbl err α → List ω → Shared σ ε → Except err (α × List ω) × Shared σ ε
  | .ret a, ws, s => (.ok (a, ws), s)
  | .raise e, _, s => (.error e, s)
  | .stmt _ w x k, ws, s =>
    (k (s.view ws) s.ext).run (ws ++ w (s.view ws) s.ext) (s.tell (x (s.view ws) s.ext))
  | .commit _ x k, ws, s => k.run [] (s.commit ws (x s.ext))
  | .rollback k, _, s => k.run [] s

/-- What a handler answers when it is served alone, and the state it leaves.  What it has not
committed is gone. -/
def exec (p : Prog σ ε ω lbl err α) (s : Shared σ ε) : Except err α × Shared σ ε :=
  ((p.run [] s).1.map Prod.fst, (p.run [] s).2)

/-- The weakest precondition of a handler that runs alone. -/
def wlp (R : Shared σ ε → Prop) (p : Prog σ ε ω lbl err α) (Q : α → List ω → Shared σ ε → Prop)
    (ws : List ω) (s : Shared σ ε) : Prop :=
  match p.run ws s with
  | (.ok (a, ws'), s') => Q a ws' s'
  | (.error _, s') => R s'

variable {R : Shared σ ε → Prop} {Q Q' : α → List ω → Shared σ ε → Prop} {ws : List ω}
  {s : Shared σ ε}

theorem run_bind (p : Prog σ ε ω lbl err α) (f : α → Prog σ ε ω lbl err β) (ws : List ω)
    (s : Shared σ ε) : (p.bind f).run ws s = match p.run ws s with
      | (.ok (a, ws'), s') => (f a).run ws' s'
      | (.error e, s') => (.error e, s') := by
  induction p generalizing ws s with
  | ret a => rfl
  | raise e => rfl
  | stmt l w x k ih => exact ih _ _ _ _
  | commit l x k ih => exact ih _ _
  | rollback k ih => exact ih _ _

section Run

variable {l : lbl}

theorem run_read {q : σ → ε → α} :
    (read l q : Prog σ ε ω lbl err α).run ws s = (.ok (q (s.view ws) s.ext, ws), s) := by
  simp [run, read]

theorem run_read_bind {q : σ → ε → β} {f : β → Prog σ ε ω lbl err α} :
    ((read l q).bind f).run ws s = (f (q (s.view ws) s.ext)).run ws s := by
  simp [run, read, Prog.bind]

theorem run_raiseIf_bind {c : Prop} [Decidable c] {e : err} {f : Unit → Prog σ ε ω lbl err α} :
    ((raiseIf c e).bind f).run ws s = if c then (.error e, s) else (f ()).run ws s := by
  unfold raiseIf
  split
  · rfl
  · rfl

end Run

/-! ## Rules -/

theorem wlp_bind {p : Prog σ ε ω lbl err α} {f : α → Prog σ ε ω lbl err β}
    {Q : β → List ω → Shared σ ε → Prop} :
    (p.bind f).wlp R Q ws s ↔ p.wlp R (fun a ws s => (f a).wlp R Q ws s) ws s := by
  simp only [wlp, run_bind]
  rcases p.run ws s with ⟨_ | ⟨a, ws'⟩, s'⟩
  · exact Iff.rfl
  · exact Iff.rfl

variable {p : Prog σ ε ω lbl err α} {l : lbl} {c : Prop}

theorem wlp_weaken {R' : Shared σ ε → Prop} (hwlp : p.wlp R Q ws s)
    (hR : ∀ s, R s → R' s) (hQ : ∀ a ws s, Q a ws s → Q' a ws s) : p.wlp R' Q' ws s := by
  unfold wlp at hwlp ⊢
  generalize p.run ws s = out at hwlp ⊢
  rcases out with ⟨_ | ⟨a, ws'⟩, s'⟩
  · exact hR s' hwlp
  · exact hQ a ws' s' hwlp

theorem wlp_mono (hwlp : p.wlp R Q ws s) (hQ : ∀ a ws s, Q a ws s → Q' a ws s) : p.wlp R Q' ws s :=
  wlp_weaken hwlp (fun _ h => h) hQ

/-- Sequencing with an intermediate assertion. -/
theorem wlp_seq {f : α → Prog σ ε ω lbl err β}
    {Q' : β → List ω → Shared σ ε → Prop} (hp : p.wlp R Q ws s)
    (hf : ∀ a ws s, Q a ws s → (f a).wlp R Q' ws s) : (p.bind f).wlp R Q' ws s :=
  wlp_bind.mpr (wlp_mono hp hf)

theorem wlp_read {q : σ → ε → α} :
    (read l q : Prog σ ε ω lbl err α).wlp R Q ws s ↔ Q (q (s.view ws) s.ext) ws s := by
  simp [wlp, read, run]

theorem wlp_write {w : σ → ε → List ω} {q : σ → ε → α} :
    (write l w q : Prog σ ε ω lbl err α).wlp R Q ws s ↔
      Q (q (s.view ws) s.ext) (ws ++ w (s.view ws) s.ext) s := by
  simp [wlp, write, run]

theorem wlp_effect {x : σ → ε → ε} {Q : Unit → List ω → Shared σ ε → Prop} :
    (effect l x : Prog σ ε ω lbl err Unit).wlp R Q ws s ↔
      Q () ws (s.tell (x (s.view ws) s.ext)) := by
  simp [wlp, effect, run]

theorem wlp_raiseIf [Decidable c] {e : err} {Q : Unit → List ω → Shared σ ε → Prop}
    (hfail : c → R s) (hok : ¬c → Q () ws s) :
    (raiseIf c e : Prog σ ε ω lbl err Unit).wlp R Q ws s := by
  unfold raiseIf
  split
  · exact hfail ‹_›
  · exact hok ‹_›

/-- A statement that only reads, and what follows it. -/
theorem wlp_read_bind {q : σ → ε → β} {f : β → Prog σ ε ω lbl err α}
    (h : (f (q (s.view ws) s.ext)).wlp R Q ws s) : ((read l q).bind f).wlp R Q ws s :=
  wlp_bind.mpr (wlp_read.mpr h)

/-- A check, and what follows it. -/
theorem wlp_raiseIf_bind [Decidable c] {e : err} {f : Unit → Prog σ ε ω lbl err α}
    (hfail : c → R s) (hok : ¬c → (f ()).wlp R Q ws s) : ((raiseIf c e).bind f).wlp R Q ws s :=
  wlp_bind.mpr (wlp_raiseIf hfail hok)

theorem wlp_onlyIf [Decidable c] {p : Prog σ ε ω lbl err Unit}
    {Q : Unit → List ω → Shared σ ε → Prop} (hyes : c → p.wlp R Q ws s) (hno : ¬c → Q () ws s) :
    (onlyIf c p).wlp R Q ws s := by
  unfold onlyIf
  split
  · exact hyes ‹_›
  · exact hno ‹_›

/-- A `try`: a failure leads to the same assertion as a value. -/
theorem wlp_attempt {Q' : Except err α → List ω → Shared σ ε → Prop}
    {R' : Shared σ ε → Prop} (hp : p.wlp R Q ws s) (hok : ∀ a ws s, Q a ws s → Q' (.ok a) ws s)
    (herror : ∀ e ws s, R s → Q' (.error e) ws s) : p.attempt.wlp R' Q' ws s := by
  induction p generalizing ws s with
  | ret a => exact hok a ws s hp
  | raise e => exact herror e ws s hp
  | stmt l w x k ih => exact ih _ _ hp
  | commit l x k ih => exact ih hp
  | rollback k ih => exact ih hp

/-- What a handler that is served alone answers, and leaves behind. -/
theorem exec_of_wlp (hwlp : p.wlp R Q [] s) :
    (∀ a, (p.exec s).1 = .ok a → ∃ ws, Q a ws (p.exec s).2) ∧
      (∀ e, (p.exec s).1 = .error e → R (p.exec s).2) := by
  unfold wlp at hwlp
  unfold exec
  generalize p.run [] s = out at hwlp ⊢
  rcases out with ⟨e | ⟨a, ws'⟩, s'⟩
  · exact ⟨nofun, fun _ _ => hwlp⟩
  · refine ⟨fun a' h => ?_, nofun⟩
    cases h
    exact ⟨ws', hwlp⟩

/-- A handler that never fails. -/
theorem exec_eq_ok (hwlp : p.wlp (fun _ => False) Q [] s) :
    ∃ a s', p.exec s = (.ok a, s') ∧ ∃ ws, Q a ws s' := by
  obtain ⟨hok, herror⟩ := exec_of_wlp hwlp
  cases hres : (p.exec s).1 with
  | ok a => exact ⟨a, (p.exec s).2, Prod.ext hres rfl, hok a hres⟩
  | error e => exact (herror e hres).elim

/-! ## Invariants of the database -/

/-- The invariant holds of what is committed and of what the transaction sees. -/
def Both (P : σ → Prop) (ws : List ω) (s : Shared σ ε) : Prop :=
  P s.db ∧ P (s.view ws)

theorem Both.nil {P : σ → Prop} (h : P s.db) : Both P ([] : List ω) s := ⟨h, h⟩

/-- A part of the handler whose writes keep the invariant. -/
theorem wlp_within {P : σ → Prop} {W : ω → Prop} {E : ε → ε → Prop}
    (hW : ∀ w d, W w → P d → P (Store.apply w d)) (hp : p.Within W E)
    (h : Both P ws s) : p.wlp (fun s => P s.db) (fun _ ws s => Both P ws s) ws s := by
  induction p generalizing ws s with
  | ret a => exact h
  | raise e => exact h.1
  | stmt l w x k ih =>
    obtain ⟨hw, -, hk⟩ := hp (s.view ws) s.ext
    refine ih _ _ hk ⟨h.1, ?_⟩
    rw [Shared.view, applyAll_append]
    exact applyAll_inv h.2 fun o ho d hd => hW o d (hw o ho) hd
  | commit l x k ih => exact ih hp.2 (.nil h.2)
  | rollback k ih => exact ih hp (.nil h.1)

/-- A part of the handler that writes nothing. -/
theorem wlp_silent {E : ε → ε → Prop} (hp : p.Within (fun _ => False) E) {db : σ} (h : s.db = db) :
    p.wlp (fun s => s.db = db) (fun _ ws s => ws = [] ∧ s.db = db) [] s := by
  induction p generalizing s with
  | ret a => exact ⟨rfl, h⟩
  | raise e => exact h
  | stmt l w x k ih =>
    obtain ⟨hw, -, hk⟩ := hp s.db s.ext
    have hnil : w s.db s.ext = [] := List.eq_nil_iff_forall_not_mem.mpr hw
    have hrest := ih s.db s.ext hk (s := s.tell (x s.db s.ext)) h
    rw [wlp, run, Shared.view_nil, hnil]
    exact hrest
  | commit l x k ih => exact ih hp.2 h
  | rollback k ih => exact ih hp h

/-- An invariant that holds wherever a handler returns or fails is left behind by it. -/
theorem exec_inv {P : Shared σ ε → Prop}
    (hwlp : p.wlp P (fun _ _ s => P s) [] s) : P (p.exec s).2 := by
  obtain ⟨hok, herror⟩ := exec_of_wlp hwlp
  cases hres : (p.exec s).1 with
  | ok a => exact (hok a hres).choose_spec
  | error e => exact herror e hres

end Prog

/-! ## Histories -/

section Histories

variable (handler : ρ → Prog σ ε ω lbl err α) (ok : Shared σ ε → ρ → Prop)

/-- The states that requests served one after the other lead to, each of which satisfies `ok`
where it is served. -/
def Serial : Shared σ ε → Shared σ ε → Prop :=
  Relation.ReflTransGen fun s s' => ∃ r, ok s r ∧ s' = ((handler r).exec s).2

/-- Serve some requests, one after the other. -/
def serve (s : Shared σ ε) : List ρ → Shared σ ε
  | [] => s
  | r :: rest => serve ((handler r).exec s).2 rest

/-- Every request of a list satisfies `ok` where it is served. -/
def ServedOk (s : Shared σ ε) : List ρ → Prop
  | [] => True
  | r :: rest => ok s r ∧ ServedOk ((handler r).exec s).2 rest

variable {handler ok} {s s' : Shared σ ε}

instance ServedOk.decidable [∀ s r, Decidable (ok s r)] :
    ∀ (s : Shared σ ε) (rs : List ρ), Decidable (ServedOk handler ok s rs)
  | _, [] => isTrue trivial
  | s, r :: rest =>
    have : Decidable (ServedOk handler ok ((handler r).exec s).2 rest) :=
      ServedOk.decidable _ rest
    inferInstanceAs (Decidable (_ ∧ _))

theorem Serial.of_serve {rs : List ρ} (hok : ServedOk handler ok s rs) :
    Serial handler ok s (serve handler s rs) := by
  induction rs generalizing s with
  | nil => exact .refl
  | cons r rest ih => exact .head ⟨r, hok.1, rfl⟩ (ih hok.2)

/-- What holds at first and is kept by every request holds after every history. -/
theorem Serial.inv {P : Shared σ ε → Prop} (hrun : Serial handler ok s s') (hs : P s)
    (hstep : ∀ s r, P s → ok s r → P ((handler r).exec s).2) : P s' := by
  induction hrun with
  | refl => exact hs
  | tail _ hlast ih =>
    obtain ⟨r, hok, rfl⟩ := hlast
    exact hstep _ r ih hok

end Histories

end ReadCommitted
