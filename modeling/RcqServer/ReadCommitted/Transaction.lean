import RcqServer.ReadCommitted.Frame

/-!
# One transaction

Most handlers are one transaction: statements that only collect writes, then a commit, then
nothing that can fail.  Two static properties of a program say so.

* `Prog.Open L`: the program has no commit, and its statements have labels in `L`.  An assertion
  about the pending writes is carried through it by `Outline.wp_part`, under weaker conditions than
  those of the frame rule, since only statements in `L` have to respect it.
* `Prog.Atomic`: once the program has committed it does not fail any more.  A request whose
  handler is atomic and that ends in a refusal has changed nothing (`World.db_eq_of_refused`).

`Prog.Part` and `Prog.Whole` add to them what is written: a handler is put together from parts, and
is then known to be one transaction within the bounds of its parts.
-/

namespace ReadCommitted

open Option List

variable {σ ε ω κ lbl err ρ α β : Type}

namespace Prog

/-- The program does not commit, its statements have labels in `L`, and it drops its writes only
in order to fail. -/
def Open (L : lbl → Prop) : Prog σ ε ω lbl err α → Prop
  | ret _ => True
  | raise _ => True
  | stmt l _ _ k => L l ∧ ∀ v e, (k v e).Open L
  | commit _ _ _ => False
  | rollback k => ∃ e, k = raise e

/-- The program does not fail. -/
def Succeeds : Prog σ ε ω lbl err α → Prop
  | ret _ => True
  | raise _ => False
  | stmt _ _ _ k => ∀ v e, (k v e).Succeeds
  | commit _ _ k => k.Succeeds
  | rollback k => k.Succeeds

/-- The program does not fail after a commit. -/
def Atomic : Prog σ ε ω lbl err α → Prop
  | ret _ => True
  | raise _ => True
  | stmt _ _ _ k => ∀ v e, (k v e).Atomic
  | commit _ _ k => k.Succeeds
  | rollback k => k.Atomic

variable {L : lbl → Prop}

@[simp] theorem open_ret (a : α) : (ret a : Prog σ ε ω lbl err α).Open L := trivial

variable {p : Prog σ ε ω lbl err α} {f : α → Prog σ ε ω lbl err β} {c : Prop}

theorem Open.bind (hp : p.Open L) (hf : ∀ a, (f a).Open L) : (p.bind f).Open L := by
  induction p with
  | ret a => exact hf a
  | raise e => exact trivial
  | stmt l w x k ih => exact ⟨hp.1, fun v e => ih v e (hp.2 v e)⟩
  | commit l x k _ => exact hp.elim
  | rollback k _ =>
    obtain ⟨e, rfl⟩ := hp
    exact ⟨e, rfl⟩

@[simp] theorem Open.read {l : lbl} (hl : L l) (q : σ → ε → α) :
    (read l q : Prog σ ε ω lbl err α).Open L :=
  ⟨hl, fun _ _ => trivial⟩

@[simp] theorem Open.write {l : lbl} (hl : L l) (w : σ → ε → List ω) (q : σ → ε → α) :
    (write l w q : Prog σ ε ω lbl err α).Open L :=
  ⟨hl, fun _ _ => trivial⟩

theorem Open.ite [Decidable c] {q : Prog σ ε ω lbl err α} (hp : p.Open L)
    (hq : q.Open L) : (if c then p else q).Open L := by
  split
  · exact hp
  · exact hq

@[simp] theorem Open.onlyIf [Decidable c] {p : Prog σ ε ω lbl err Unit} (hp : p.Open L) :
    (onlyIf c p).Open L :=
  Open.ite hp trivial

@[simp] theorem Open.raiseIf {c : Prop} [Decidable c] {e : err} :
    (raiseIf c e : Prog σ ε ω lbl err Unit).Open L :=
  Open.ite trivial trivial

/-! ## Atomic programs -/

theorem Succeeds.bind (hp : p.Succeeds) (hf : ∀ a, (f a).Succeeds) : (p.bind f).Succeeds := by
  induction p with
  | ret a => exact hf a
  | raise e => exact hp.elim
  | stmt l w x k ih => exact fun v e => ih v e (hp v e)
  | commit l x k ih => exact ih hp
  | rollback k ih => exact ih hp

theorem Succeeds.atomic (hp : p.Succeeds) : p.Atomic := by
  induction p with
  | ret a => exact trivial
  | raise e => exact trivial
  | stmt l w x k ih => exact fun v e => ih v e (hp v e)
  | commit l x k _ => exact hp
  | rollback k ih => exact ih hp

theorem attempt_succeeds (p : Prog σ ε ω lbl err α) : p.attempt.Succeeds := by
  induction p with
  | ret a => exact trivial
  | raise e => exact trivial
  | stmt l w x k ih => exact fun v e => ih v e
  | commit l x k ih => exact ih
  | rollback k ih => exact ih

/-- A program that ends in a transaction which does not fail. -/
theorem Atomic.bind (hp : p.Atomic) (hf : ∀ a, (f a).Succeeds) : (p.bind f).Atomic := by
  induction p with
  | ret a => exact (hf a).atomic
  | raise e => exact trivial
  | stmt l w x k ih => exact fun v e => ih v e (hp v e)
  | commit l x k _ => exact Succeeds.bind hp hf
  | rollback k ih => exact ih hp

/-- A program that starts without committing. -/
theorem Open.atomic_bind (hp : p.Open L) (hf : ∀ a, (f a).Atomic) : (p.bind f).Atomic := by
  induction p with
  | ret a => exact hf a
  | raise e => exact trivial
  | stmt l w x k ih => exact fun v e => ih v e (hp.2 v e)
  | commit l x k _ => exact hp.elim
  | rollback k _ =>
    obtain ⟨e, rfl⟩ := hp
    exact trivial

theorem Atomic.ite [Decidable c] {q : Prog σ ε ω lbl err α} (hp : p.Atomic)
    (hq : q.Atomic) : (if c then p else q).Atomic := by
  split
  · exact hp
  · exact hq

/-! ## Parts of a transaction, and whole ones -/

variable {W : ω → Prop} {E : ε → ε → Prop} {l : lbl}

/-- A part of a transaction: it collects writes of `W` with statements of `L`, and does nothing
outside. -/
def Part (W : ω → Prop) (L : lbl → Prop) (p : Prog σ ε ω lbl err α) : Prop :=
  p.Within W Eq ∧ p.Open L

/-- A transaction with writes of `W` and effects of `E`, after whose commit nothing fails. -/
def Whole (W : ω → Prop) (E : ε → ε → Prop) (p : Prog σ ε ω lbl err α) : Prop :=
  p.Within W E ∧ p.Atomic

@[simp] theorem part_ret {a : α} : (ret a : Prog σ ε ω lbl err α).Part W L := ⟨trivial, trivial⟩

theorem part_raise {e : err} : (raise e : Prog σ ε ω lbl err α).Part W L := ⟨trivial, trivial⟩

theorem Part.bind (hp : p.Part W L) (hf : ∀ a, (f a).Part W L) : (p.bind f).Part W L :=
  ⟨hp.1.bind fun a => (hf a).1, hp.2.bind fun a => (hf a).2⟩

@[simp] theorem Part.read (hl : L l) (q : σ → ε → α) : (read l q : Prog σ ε ω lbl err α).Part W L :=
  ⟨Within.read (fun _ => rfl), Open.read hl q⟩

theorem Part.write (hl : L l) {w : σ → ε → List ω} {q : σ → ε → α}
    (hw : ∀ v e, ∀ o ∈ w v e, W o) : (write l w q : Prog σ ε ω lbl err α).Part W L :=
  ⟨Within.write (fun _ => rfl) hw, Open.write hl w q⟩

theorem Part.ite [Decidable c] {q : Prog σ ε ω lbl err α} (hp : p.Part W L) (hq : q.Part W L) :
    (if c then p else q).Part W L :=
  ⟨Within.ite hp.1 hq.1, Open.ite hp.2 hq.2⟩

@[simp] theorem Part.onlyIf [Decidable c] {p : Prog σ ε ω lbl err Unit} (hp : p.Part W L) :
    (onlyIf c p).Part W L :=
  Part.ite hp part_ret

@[simp] theorem Part.raiseIf [Decidable c] {e : err} :
    (raiseIf c e : Prog σ ε ω lbl err Unit).Part W L :=
  Part.ite part_raise part_ret

/-- A part comes before the rest of a transaction. -/
theorem Part.whole (hE : ∀ e, E e e) (hp : p.Part W fun _ => True)
    (hf : ∀ a, (f a).Whole W E) : (p.bind f).Whole W E :=
  ⟨(hp.1.of_eq hE).bind fun a => (hf a).1, hp.2.atomic_bind fun a => (hf a).2⟩

theorem whole_raise {e : err} : (raise e : Prog σ ε ω lbl err α).Whole W E := ⟨trivial, trivial⟩

theorem Whole.read (hE : ∀ e, E e e) {q : σ → ε → β} {f : β → Prog σ ε ω lbl err α}
    (hf : ∀ b, (f b).Whole W E) : ((read l q).bind f).Whole W E :=
  (Part.read trivial q).whole hE hf

theorem Whole.raiseIf [Decidable c] {e : err} {f : Unit → Prog σ ε ω lbl err α}
    (hf : (f ()).Whole W E) : ((raiseIf c e).bind f).Whole W E := by
  unfold Prog.raiseIf
  split
  · exact whole_raise
  · exact hf

theorem Whole.commit {x : ε → ε} {k : Prog σ ε ω lbl err α} (hx : ∀ e, E e (x e))
    (hk : k.Within W E) (hsucceeds : k.Succeeds) : (commit l x k).Whole W E :=
  ⟨⟨hx, hk⟩, hsucceeds⟩

theorem Whole.ite [Decidable c] {q : Prog σ ε ω lbl err α} (hp : p.Whole W E)
    (hq : q.Whole W E) : (if c then p else q).Whole W E :=
  ⟨Within.ite hp.1 hq.1, Atomic.ite hp.2 hq.2⟩

/-- What comes after a transaction does not fail. -/
theorem Whole.bind (hp : p.Whole W E) (hf : ∀ a, (f a).Within W E)
    (hsucceeds : ∀ a, (f a).Succeeds) : (p.bind f).Whole W E :=
  ⟨hp.1.bind hf, hp.2.bind hsucceeds⟩

end Prog

/-! ## Carrying an assertion to the commit -/

namespace Outline

variable [Store σ ω κ] {O : Outline σ ε ω lbl ρ} {r : ρ}

/-- An assertion that others respect while a statement in `L` is next, and that writes within `W`
keep. -/
structure Carried (O : Outline σ ε ω lbl ρ) (r : ρ) (L : lbl → Prop) (W : ω → Prop)
    (A : List ω → Shared σ ε → Prop) : Prop where
  stable : ∀ l ws s s', L l → A ws s → O.Rely r (some l) ws s s' → O.Inv s' → A ws s'
  write : ∀ ws s new, A ws s → O.Inv s → (∀ o ∈ new, W o) → A (ws ++ new) s

variable {W : ω → Prop} {A : List ω → Shared σ ε → Prop} {p : Prog σ ε ω lbl err α} {ws : List ω}
  {s : Shared σ ε}

/-- An open program whose effects keep the invariant and the assertion. -/
theorem wp_open_effect {L : lbl → Prop} {E : ε → ε → Prop} (hA : O.Carried r L W A)
    (hE : ∀ l ws s e, A ws s → O.Inv s → E s.ext e → O.Step r l ws s (s.tell e) ∧ A ws (s.tell e))
    (hp : p.Within W E) (hopen : p.Open L) (hs : A ws s) :
    O.wp r p (fun _ ws s => A ws s) ws s := by
  induction p generalizing ws s with
  | ret a => exact hs
  | raise e => exact trivial
  | stmt l w x k ih =>
    intro s' hrely hinv _
    obtain ⟨hw, hx, hk⟩ := hp (s'.view ws) s'.ext
    have hnow := hA.write ws s' _ (hA.stable l ws s s' hopen.1 hs hrely hinv) hinv hw
    obtain ⟨hstep, hnew⟩ := hE l _ s' _ hnow hinv hx
    exact ⟨hstep, ih _ _ hk (hopen.2 _ _) hnew⟩
  | commit l x k _ => exact hopen.elim
  | rollback k _ =>
    obtain ⟨e, rfl⟩ := hopen
    exact fun _ _ _ => trivial

theorem wp_part (hO : O.Coherent) {L : lbl → Prop} (hA : O.Carried r L W A) (hp : p.Part W L)
    (hs : A ws s) : O.wp r p (fun _ ws s => A ws s) ws s := by
  refine wp_open_effect hA ?_ hp.1 hp.2 hs
  rintro l ws s _ h hinv rfl
  exact ⟨⟨hinv, hO.guar_refl r l ws s⟩, h⟩

theorem wp_part_bind (hO : O.Coherent) {L : lbl → Prop} (hA : O.Carried r L W A)
    (hp : p.Part W L) {f : α → Prog σ ε ω lbl err β}
    {R : β → List ω → Shared σ ε → Prop} (hs : A ws s)
    (hf : ∀ a ws s, A ws s → O.wp r (f a) R ws s) : O.wp r (p.bind f) R ws s :=
  wp_seq (wp_part hO hA hp hs) hf

end Outline

/-! ## Refusals -/

/-- How far a session may be, given whether it has committed already. -/
def Session.Intact (committed : Prop) : Session σ ε ω lbl err ρ α → Prop
  | .running _ p _ => p.Atomic ∧ (committed → p.Succeeds)
  | .refused _ _ => ¬committed
  | _ => True

namespace World

variable [Store σ ω κ] [DecidableEq κ] {handler : ρ → Prog σ ε ω lbl err α}
  {ok : World σ ε ω lbl err ρ α → Action ρ → Prop} {w w' w₁ w₂ : World σ ε ω lbl err ρ α} {n : ℕ}

/-- No session that has committed can still be refused. -/
structure Intact (w : World σ ε ω lbl err ρ α) : Prop where
  session : ∀ (n : ℕ) x, w.sessions[n]? = some x → x.Intact (n ∈ w.log)
  log : ∀ n ∈ w.log, n < w.sessions.length

private theorem Intact.put {x y : Session σ ε ω lbl err ρ α} (h : w.Intact)
    (hn : w.sessions[n]? = some x) (hy : y.Intact (n ∈ w.log)) : (w.put n y).Intact where
  session := by
    intro m z hm
    by_cases hnm : n = m
    · subst hnm
      obtain rfl : y = z := some.inj ((put_get?_self hn).symm.trans hm)
      exact hy
    · rw [put_get?_ne hnm] at hm
      exact h.session m z hm
  log := by
    intro m hm
    simpa [World.put] using h.log m hm

private theorem Intact.commit {x y : Session σ ε ω lbl err ρ α} (h : w.Intact)
    (hn : w.sessions[n]? = some x) (hy : y.Intact True) (s : Shared σ ε) :
    Intact { w.put n y with shared := s, log := n :: w.log } where
  session := by
    intro m z hm
    by_cases hnm : n = m
    · subst hnm
      obtain rfl : y = z := some.inj ((put_get?_self hn).symm.trans hm)
      simpa using hy
    · have hbefore := h.session m z ((put_get?_ne hnm y).symm.trans hm)
      simpa [Ne.symm hnm] using hbefore
  log := by
    intro m hm
    simp only [World.put, length_set]
    rcases mem_cons.mp hm with rfl | hm
    · exact (List.getElem?_eq_some_iff.mp hn).1
    · exact h.log m hm

private theorem Intact.runHead {r : ρ} {p : Prog σ ε ω lbl err α} {ws : List ω} (h : w.Intact)
    (hn : w.sessions[n]? = some (.running r p ws)) (hrun : w.runHead n r ws p = some w') :
    w'.Intact := by
  have hp : p.Atomic ∧ (n ∈ w.log → p.Succeeds) := h.session n _ hn
  cases p with
  | ret a =>
    obtain rfl := some.inj hrun
    exact h.put hn trivial
  | raise e =>
    obtain rfl := some.inj hrun
    exact h.put hn hp.2
  | stmt l f x k =>
    simp only [World.runHead, ite_none_right_eq_some, some.injEq] at hrun
    obtain ⟨-, rfl⟩ := hrun
    have hy : Session.Intact (n ∈ w.log) (.running r (k (w.shared.view ws) w.shared.ext)
        (ws ++ f (w.shared.view ws) w.shared.ext) : Session σ ε ω lbl err ρ α) :=
      ⟨hp.1 _ _, fun hlog => hp.2 hlog _ _⟩
    exact ⟨(h.put hn hy).session, (h.put hn hy).log⟩
  | commit l x k =>
    obtain rfl := some.inj hrun
    have hk : k.Succeeds := hp.1
    exact h.commit hn (y := .running r k []) ⟨hk.atomic, fun _ => hk⟩ _
  | rollback k =>
    obtain rfl := some.inj hrun
    exact h.put hn hp

private theorem Intact.next (hhandler : ∀ r, (handler r).Atomic) (h : w.Intact) {a : Action ρ}
    (hnext : w.next handler a = some w') : w'.Intact := by
  cases a with
  | start r =>
    obtain rfl := some.inj hnext
    refine ⟨fun m x hm => ?_, fun m hm => ?_⟩
    · rcases get?_start hm with hold | ⟨rfl, rfl⟩
      · exact h.session m x hold
      · exact ⟨hhandler r, fun hlog => absurd (h.log _ hlog) (Nat.lt_irrefl _)⟩
    · have := h.log m hm
      simp only [length_append, length_singleton]
      omega
  | step n =>
    obtain ⟨r, p, ws, hn, hhead⟩ := next_step_cases hnext
    exact h.runHead hn hhead
  | kill n =>
    obtain ⟨r, p, ws, hn, rfl⟩ := next_kill_cases hnext
    exact h.put hn trivial

/-- Whoever has committed is on the log for good. -/
private theorem log_mono_of_next {a : Action ρ} (hnext : w.next handler a = some w') :
    w.log ⊆ w'.log := by
  cases a with
  | start r =>
    obtain rfl := some.inj hnext
    exact Subset.refl _
  | step n =>
    obtain ⟨r, p, ws, -, hrun⟩ := next_step_cases hnext
    cases p with
    | stmt l f x k =>
      simp only [World.runHead, ite_none_right_eq_some, some.injEq] at hrun
      obtain ⟨-, rfl⟩ := hrun
      exact Subset.refl _
    | _ =>
      obtain rfl := some.inj hrun
      simp [World.put]
  | kill n =>
    obtain ⟨r, p, ws, -, rfl⟩ := next_kill_cases hnext
    exact Subset.refl _

/-- A step that changes the database is a commit. -/
private theorem mem_log_of_step (hnext : w.next handler (.step n) = some w')
    (hne : w'.shared.db ≠ w.shared.db) : n ∈ w'.log := by
  obtain ⟨r, p, ws, -, hrun⟩ := next_step_cases hnext
  cases p with
  | stmt l f x k =>
    simp only [World.runHead, ite_none_right_eq_some, some.injEq] at hrun
    obtain ⟨-, rfl⟩ := hrun
    exact absurd rfl hne
  | commit l x k =>
    obtain rfl := some.inj hrun
    exact mem_cons_self
  | _ =>
    obtain rfl := some.inj hrun
    exact absurd rfl hne

private theorem Intact.of_run (hhandler : ∀ r, (handler r).Atomic) (h : w₁.Intact)
    (hrun : Run handler ok w₁ w₂) : w₂.Intact := by
  induction hrun with
  | refl => exact h
  | tail _ hlast ih =>
    obtain ⟨a, -, hnext⟩ := hlast
    exact ih.next hhandler hnext

private theorem log_mono_of_run (hrun : Run handler ok w₁ w₂) : w₁.log ⊆ w₂.log := by
  induction hrun with
  | refl => exact Subset.refl _
  | tail _ hlast ih =>
    obtain ⟨a, -, hnext⟩ := hlast
    exact Subset.trans ih (log_mono_of_next hnext)

/-- **Refusals change nothing.**  No step of a request that ends in a refusal changes the
database, if no handler fails after a commit. -/
theorem db_eq_of_refused (hhandler : ∀ r, (handler r).Atomic) {db : σ} {ext : ε}
    (hbefore : Run handler ok (.fresh db ext) w₁) (hstep : w₁.next handler (.step n) = some w₂)
    (hafter : Run handler ok w₂ w) {r : ρ} {e : err}
    (hrefused : w.sessions[n]? = some (.refused r e)) : w₂.shared.db = w₁.shared.db := by
  have hfresh : (fresh db ext : World σ ε ω lbl err ρ α).Intact :=
    ⟨fun m x hm => by simp [fresh] at hm, fun m hm => by simp [fresh] at hm⟩
  have hintact := ((hfresh.of_run hhandler hbefore).next hhandler hstep).of_run hhandler hafter
  by_contra hne
  exact hintact.session n _ hrefused (log_mono_of_run hafter (mem_log_of_step hstep hne))

end World

end ReadCommitted
