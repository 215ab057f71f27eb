import RcqServer.ReadCommitted.Transaction

/-!
# What sessions hold

Not everything that a session owns is a row that it has locked.  A nonce that it has claimed, a lease
that it has taken lie outside the database, and nothing there says whose they are: that follows from
where each session is in its program.

A `Custody` speaks of the shared state and of what each session holds.  `Custody.wp` follows one
session through its program; every statement may give it something or take it away, has to keep the
invariant for whatever the others hold, and a session that ends holds nothing.
`Custody.held_of_run` is the adequacy theorem: the invariant holds after every run, and what is held
is held by sessions that are still running or were killed.
-/

namespace ReadCommitted

open Option Function World List

variable {σ ε ω κ lbl err ρ τ α β : Type} [Store σ ω κ]

/-- The request of a session that has not come to its end: it is running, or was killed. -/
def Session.unended : Session σ ε ω lbl err ρ α → Option ρ
  | .running r _ _ => some r
  | .killed r => some r
  | _ => none

/-- The request of session `n`, if it has not come to its end. -/
def World.unended (w : World σ ε ω lbl err ρ α) (n : ℕ) : Option ρ :=
  w.sessions[n]?.bind Session.unended

/-- An invariant of the shared state and of what the sessions hold. -/
structure Custody (σ ε lbl ρ τ : Type) where
  Inv : Shared σ ε → (ℕ → Option τ) → Prop
  /-- A request may come to hold this. -/
  Of : ρ → τ → Prop
  /-- Every step leads to a later state. -/
  Later : Shared σ ε → Shared σ ε → Prop
  /-- A request may run the statement with this label here. -/
  Cond : ρ → lbl → Shared σ ε → Prop

namespace Custody

variable (C : Custody σ ε lbl ρ τ)

/-- Session `n`, which serves `r`, takes the shared state from `s` to `s'` and then holds `o`. -/
structure Step (r : ρ) (own : ℕ → Option τ) (n : ℕ) (s s' : Shared σ ε) (o : Option τ) : Prop where
  inv : C.Inv s' (update own n o)
  later : C.Later s s'
  of : ∀ t ∈ o, C.Of r t

/-- The weakest precondition of a handler for request `r`, which holds `o` and has the pending
writes `ws`. -/
def wp (r : ρ) : Prog σ ε ω lbl err α → (α → Option τ → List ω → Shared σ ε → Prop) →
    Option τ → List ω → Shared σ ε → Prop
  | .ret a, Q, o, ws, s => Q a o ws s
  | .raise _, _, o, _, _ => o = none
  | .stmt l f x k, Q, o, ws, s =>
    ∀ s' own n, C.Later s s' → C.Inv s' own → own n = o → C.Cond r l s' →
      ∃ o', C.Step r own n s' (s'.tell (x (s'.view ws) s'.ext)) o' ∧
        wp r (k (s'.view ws) s'.ext) Q o' (ws ++ f (s'.view ws) s'.ext)
          (s'.tell (x (s'.view ws) s'.ext))
  | .commit l x k, Q, o, ws, s =>
    ∀ s' own n, C.Later s s' → C.Inv s' own → own n = o → C.Cond r l s' →
      ∃ o', C.Step r own n s' (s'.commit ws (x s'.ext)) o' ∧
        wp r k Q o' [] (s'.commit ws (x s'.ext))
  | .rollback k, Q, o, _, s => ∀ s', C.Later s s' → wp r k Q o [] s'

structure Coherent : Prop where
  later_refl : ∀ s, C.Later s s
  later_trans : ∀ s₁ s₂ s₃, C.Later s₁ s₂ → C.Later s₂ s₃ → C.Later s₁ s₃

variable {C} {r : ρ} {o : Option τ} {ws : List ω} {s : Shared σ ε}
  {Q Q' : α → Option τ → List ω → Shared σ ε → Prop}

/-! ## Rules -/

theorem wp_bind {p : Prog σ ε ω lbl err α} {f : α → Prog σ ε ω lbl err β}
    {R : β → Option τ → List ω → Shared σ ε → Prop} :
    C.wp r (p.bind f) R o ws s ↔ C.wp r p (fun a o ws s => C.wp r (f a) R o ws s) o ws s := by
  induction p generalizing o ws s with
  | ret a => rfl
  | raise e => rfl
  | stmt l w x k ih => simp only [Prog.bind, wp, ih]
  | commit l x k ih => simp only [Prog.bind, wp, ih]
  | rollback k ih => simp only [Prog.bind, wp, ih]

variable {p : Prog σ ε ω lbl err α}

theorem wp_mono (hwp : C.wp r p Q o ws s)
    (hQ : ∀ a o ws s, Q a o ws s → Q' a o ws s) : C.wp r p Q' o ws s := by
  induction p generalizing o ws s with
  | ret a => exact hQ a o ws s hwp
  | raise e => exact hwp
  | stmt l w x k ih =>
    intro s' own n hlater hinv ho hcond
    obtain ⟨o', hstep, hk⟩ := hwp s' own n hlater hinv ho hcond
    exact ⟨o', hstep, ih _ _ hk⟩
  | commit l x k ih =>
    intro s' own n hlater hinv ho hcond
    obtain ⟨o', hstep, hk⟩ := hwp s' own n hlater hinv ho hcond
    exact ⟨o', hstep, ih hk⟩
  | rollback k ih => exact fun s' hlater => ih (hwp s' hlater)

theorem wp_seq {f : α → Prog σ ε ω lbl err β}
    {R : β → Option τ → List ω → Shared σ ε → Prop} (hp : C.wp r p Q o ws s)
    (hf : ∀ a o ws s, Q a o ws s → C.wp r (f a) R o ws s) : C.wp r (p.bind f) R o ws s :=
  wp_bind.mpr (wp_mono hp hf)

theorem wp_raiseIf_bind {c : Prop} [Decidable c] {e : err} {f : Unit → Prog σ ε ω lbl err α}
    (ho : o = none) (h : ¬c → C.wp r (f ()) Q o ws s) :
    C.wp r ((Prog.raiseIf c e).bind f) Q o ws s := by
  unfold Prog.raiseIf
  split
  · exact ho
  · exact h ‹_›

/-- A session may keep what it holds. -/
theorem keep {own : ℕ → Option τ} {n : ℕ} (hinv : C.Inv s own) (ho : own n = o) :
    C.Inv s (update own n o) := by
  rwa [← ho, update_eq_self]

theorem wp_read (hC : C.Coherent) {l : lbl} {q : σ → ε → α} (hof : ∀ t ∈ o, C.Of r t)
    (h : ∀ s', C.Later s s' → Q (q (s'.view ws) s'.ext) o ws s') :
    C.wp r (Prog.read l q : Prog σ ε ω lbl err α) Q o ws s := by
  intro s' own n hlater hinv ho _
  simp only [append_nil, Shared.tell_same]
  exact ⟨o, ⟨keep hinv ho, hC.later_refl s', hof⟩, h s' hlater⟩

/-- Writes within `W` and effects within `E` concern nothing that is held. -/
structure Framed (C : Custody σ ε lbl ρ τ) (W : ω → Prop) (E : ε → ε → Prop) : Prop where
  stmt : ∀ s own e, C.Inv s own → E s.ext e → C.Inv (s.tell e) own ∧ C.Later s (s.tell e)
  commit : ∀ (ws : List ω) s own e, (∀ x ∈ ws, W x) → C.Inv s own → E s.ext e →
    C.Inv (s.commit ws e) own ∧ C.Later s (s.commit ws e)

/-- The frame rule.  What the request holds it may keep, unless the program fails. -/
theorem wp_within (hC : C.Coherent) {W : ω → Prop} {E : ε → ε → Prop} (hframe : C.Framed W E) (hp : p.Within W E) (hfail : o = none ∨ p.Succeeds)
    (hof : ∀ t ∈ o, C.Of r t) (hws : ∀ x ∈ ws, W x) :
    C.wp r p (fun _ o' ws s' => o' = o ∧ (∀ x ∈ ws, W x) ∧ C.Later s s') o ws s := by
  suffices hgen : ∀ t, C.Later s t →
      C.wp r p (fun _ o' ws s' => o' = o ∧ (∀ x ∈ ws, W x) ∧ C.Later s s') o ws t from
    hgen s (hC.later_refl s)
  induction p generalizing ws with
  | ret a => exact fun t hst => ⟨rfl, hws, hst⟩
  | raise e => exact fun _ _ => hfail.resolve_right id
  | stmt l f x k ih =>
    intro t hst s' own n hlater hinv ho _
    obtain ⟨hf, hx, hk⟩ := hp (s'.view ws) s'.ext
    obtain ⟨hinv', hlater'⟩ := hframe.stmt s' own _ hinv hx
    refine ⟨o, ⟨keep hinv' ho, hlater', hof⟩, ?_⟩
    refine ih _ _ hk (hfail.imp id fun h => h _ _) (forall_mem_append.mpr ⟨hws, hf⟩) _ ?_
    exact hC.later_trans _ _ _ hst (hC.later_trans _ _ _ hlater hlater')
  | commit l x k ih =>
    intro t hst s' own n hlater hinv ho _
    obtain ⟨hinv', hlater'⟩ := hframe.commit ws s' own _ hws hinv (hp.1 s'.ext)
    refine ⟨o, ⟨keep hinv' ho, hlater', hof⟩, ih hp.2 hfail (forall_mem_nil _) _ ?_⟩
    exact hC.later_trans _ _ _ hst (hC.later_trans _ _ _ hlater hlater')
  | rollback k ih =>
    intro t hst s' hlater
    exact ih hp hfail (forall_mem_nil _) s' (hC.later_trans _ _ _ hst hlater)

/-- A later state keeps the weakest precondition. -/
theorem wp_of_later (hC : C.Coherent) {s' : Shared σ ε}
    (hwp : C.wp r p (fun _ o _ _ => o = none) o ws s) (hlater : C.Later s s') :
    C.wp r p (fun _ o _ _ => o = none) o ws s' := by
  cases p with
  | ret a => exact hwp
  | raise e => exact hwp
  | stmt l f x k => exact fun t own n h => hwp t own n (hC.later_trans _ _ _ hlater h)
  | commit l x k => exact fun t own n h => hwp t own n (hC.later_trans _ _ _ hlater h)
  | rollback k => exact fun t h => hwp t (hC.later_trans _ _ _ hlater h)

/-! ## Adequacy for interleavings -/

section Interleaved

/-- What holds of every reachable world, for what the sessions hold there. -/
structure Good (C : Custody σ ε lbl ρ τ) (own : ℕ → Option τ) (w : World σ ε ω lbl err ρ α) :
    Prop where
  inv : C.Inv w.shared own
  safe : ∀ (n : ℕ) r p ws, w.sessions[n]? = some (.running r p ws) →
    C.wp r p (fun _ o _ _ => o = none) (own n) ws w.shared
  held : ∀ n t, own n = some t → ∃ r, w.unended n = some r ∧ C.Of r t

variable {handler : ρ → Prog σ ε ω lbl err α} {w w' : World σ ε ω lbl err ρ α} {n : ℕ}
  {own : ℕ → Option τ}

private theorem unended_congr {m : ℕ} (h : w'.sessions[m]? = w.sessions[m]?) :
    w'.unended m = w.unended m := by
  rw [unended, unended, h]

private theorem unended_of_get {x : Session σ ε ω lbl err ρ α} (h : w.sessions[n]? = some x) :
    w.unended n = x.unended := by
  simp [unended, h]

/-- Session `n` has made a step after which it holds `o` and goes on as `next`. -/
private theorem good_of_step (hC : C.Coherent) (hgood : C.Good own w)
    {next : Session σ ε ω lbl err ρ α} (hnext : w'.sessions[n]? = some next)
    (hother : ∀ m : ℕ, n ≠ m → w'.sessions[m]? = w.sessions[m]?)
    (hinv : C.Inv w'.shared (update own n o)) (hlater : C.Later w.shared w'.shared)
    (hsafe : ∀ r p ws, next = .running r p ws → C.wp r p (fun _ o _ _ => o = none) o ws w'.shared)
    (hheld : ∀ t ∈ o, ∃ r, next.unended = some r ∧ C.Of r t) : C.Good (update own n o) w' where
  inv := hinv
  safe := by
    intro m r p ws hm
    by_cases hnm : n = m
    · subst hnm
      rw [update_self]
      exact hsafe r p ws (some.inj (hnext.symm.trans hm))
    · rw [update_of_ne (Ne.symm hnm)]
      rw [hother m hnm] at hm
      exact wp_of_later hC (hgood.safe m r p ws hm) hlater
  held := by
    intro m t hmt
    by_cases hnm : n = m
    · subst hnm
      rw [update_self] at hmt
      rw [unended_of_get hnext]
      exact hheld t hmt
    · rw [update_of_ne (Ne.symm hnm)] at hmt
      rw [unended_congr (hother m hnm)]
      exact hgood.held m t hmt

private theorem good_start (hgood : C.Good own w)
    (hstart : C.wp r (handler r) (fun _ o _ _ => o = none) none [] w.shared) :
    C.Good own { w with sessions := w.sessions ++ [.running r (handler r) []] } := by
  have hnew : own w.sessions.length = none := by
    cases hown : own w.sessions.length with
    | none => rfl
    | some t =>
      obtain ⟨r, hr, -⟩ := hgood.held _ t hown
      simp [unended] at hr
  refine ⟨hgood.inv, ?_, ?_⟩
  · intro m r' p ws hm
    rcases get?_start hm with hold | ⟨rfl, heq⟩
    · exact hgood.safe m r' p ws hold
    · cases heq
      rw [hnew]
      exact hstart
  · intro m t hmt
    obtain ⟨r', hr', hof⟩ := hgood.held m t hmt
    obtain ⟨x, hx, -⟩ := bind_eq_some_iff.mp hr'
    refine ⟨r', ?_, hof⟩
    rw [unended_congr (List.getElem?_append_left (List.getElem?_eq_some_iff.mp hx).1)]
    exact hr'

variable [DecidableEq κ]

private theorem good_runHead (hC : C.Coherent) (hgood : C.Good own w) {p : Prog σ ε ω lbl err α}
    (hn : w.sessions[n]? = some (.running r p ws)) (hcond : ∀ l ∈ p.label?, C.Cond r l w.shared)
    (hrun : w.runHead n r ws p = some w') : ∃ own', C.Good own' w' := by
  have hsafe := hgood.safe n r p ws hn
  have hnow := hC.later_refl w.shared
  have hother : ∀ m : ℕ, n ≠ m → w'.sessions[m]? = w.sessions[m]? :=
    fun m hm => runHead_get?_ne hm hrun
  have hsame : update own n (own n) = own := update_eq_self n own
  cases p with
  | ret a =>
    obtain rfl := some.inj hrun
    have hnone : own n = none := hsafe
    exact ⟨_, good_of_step hC hgood (o := own n) (put_get?_self hn) hother
      (hsame.symm ▸ hgood.inv) hnow (by simp) (by simp [hnone])⟩
  | raise e =>
    obtain rfl := some.inj hrun
    have hnone : own n = none := hsafe
    exact ⟨_, good_of_step hC hgood (o := own n) (put_get?_self hn) hother
      (hsame.symm ▸ hgood.inv) hnow (by simp) (by simp [hnone])⟩
  | rollback k =>
    obtain rfl := some.inj hrun
    refine ⟨_, good_of_step hC hgood (o := own n) (put_get?_self hn) hother
      (hsame.symm ▸ hgood.inv) hnow ?_ ?_⟩
    · rintro r' p' ws' hnext
      cases hnext
      exact hsafe w.shared hnow
    · intro t ht
      obtain ⟨r', hr', hof⟩ := hgood.held n t ht
      rw [unended_of_get hn] at hr'
      exact ⟨r', hr', hof⟩
  | stmt l f x k =>
    simp only [runHead, ite_none_right_eq_some, some.injEq] at hrun
    obtain ⟨-, rfl⟩ := hrun
    obtain ⟨o', hstep, hk⟩ := hsafe w.shared own n hnow hgood.inv rfl (hcond l rfl)
    refine ⟨_, good_of_step hC hgood (o := o') (put_get?_self hn) hother hstep.inv
      hstep.later ?_ fun t ht => ⟨r, rfl, hstep.of t ht⟩⟩
    rintro r' p' ws' hnext
    cases hnext
    exact hk
  | commit l x k =>
    obtain rfl := some.inj hrun
    obtain ⟨o', hstep, hk⟩ := hsafe w.shared own n hnow hgood.inv rfl (hcond l rfl)
    refine ⟨_, good_of_step hC hgood (o := o') (put_get?_self hn) hother hstep.inv
      hstep.later ?_ fun t ht => ⟨r, rfl, hstep.of t ht⟩⟩
    rintro r' p' ws' hnext
    cases hnext
    exact hk

/-- **Adequacy.**  After every run the invariant holds for some account of what is held, and
everything that is held is held by a session that is running or was killed. -/
theorem held_of_run (hC : C.Coherent)
    (hhandler : ∀ r s, C.wp r (handler r) (fun _ o _ _ => o = none) none [] s)
    {ok : World σ ε ω lbl err ρ α → Action ρ → Prop}
    (hok : ∀ w n, ok w (.step n) → ∀ x ∈ w.upcoming n, C.Cond x.1 x.2 w.shared)
    {db : σ} {ext : ε} (hinit : C.Inv ⟨db, ext, []⟩ fun _ => none)
    (hrun : Run handler ok (.fresh db ext) w) :
    ∃ own, C.Inv w.shared own ∧ ∀ n t, own n = some t → ∃ r, w.unended n = some r ∧ C.Of r t := by
  suffices hgood : ∃ own, C.Good own w by
    obtain ⟨own, hgood⟩ := hgood
    exact ⟨own, hgood.inv, hgood.held⟩
  induction hrun with
  | refl =>
    refine ⟨fun _ => none, hinit, fun n r p ws hn => ?_, nofun⟩
    simp [fresh] at hn
  | tail _ hlast hgood =>
    obtain ⟨own, hgood⟩ := hgood
    obtain ⟨a, ha, hnext⟩ := hlast
    cases a with
    | start r =>
      obtain rfl := some.inj hnext
      exact ⟨own, good_start hgood (hhandler r _)⟩
    | step n =>
      obtain ⟨r, p, ws, hn, hhead⟩ := next_step_cases hnext
      exact good_runHead hC hgood hn
        (fun l hl => hok _ n ha _ (upcoming_of_running hn hl)) hhead
    | kill n =>
      -- the session keeps what it holds
      obtain ⟨r, p, ws, hn, rfl⟩ := next_kill_cases hnext
      refine ⟨_, good_of_step hC hgood (n := n) (o := own n) (put_get?_self hn)
        (fun m hm => put_get?_ne hm _) ?_ (hC.later_refl _) (by simp) fun t ht => ?_⟩
      · rw [update_eq_self]
        exact hgood.inv
      · obtain ⟨r', hr', hof⟩ := hgood.held n t ht
        rw [unended_of_get hn] at hr'
        exact ⟨r', hr', hof⟩

end Interleaved

end Custody

end ReadCommitted
