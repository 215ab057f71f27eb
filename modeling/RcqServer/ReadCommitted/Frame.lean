import RcqServer.ReadCommitted.Adequacy

/-!
# Framing

Most of a handler does not touch what a given invariant is about.  `Prog.Within W E` says so
statically: every row write satisfies `W` and every effect outside the transaction satisfies `E`.
`Outline.wp_within` carries an assertion through such a program without looking at its
statements.
-/

namespace ReadCommitted

variable {σ ε ω κ lbl err ρ α β : Type}

namespace Prog

/-- Every write of the program satisfies `W`, every effect outside the transaction `E`. -/
def Within (W : ω → Prop) (E : ε → ε → Prop) : Prog σ ε ω lbl err α → Prop
  | ret _ => True
  | raise _ => True
  | stmt _ w x k => ∀ v e, (∀ o ∈ w v e, W o) ∧ E e (x v e) ∧ (k v e).Within W E
  | commit _ x k => (∀ e, E e (x e)) ∧ k.Within W E
  | rollback k => k.Within W E

variable {W : ω → Prop} {E : ε → ε → Prop}

@[simp] theorem within_ret (a : α) : (ret a : Prog σ ε ω lbl err α).Within W E := trivial

@[simp] theorem within_raise (e : err) : (raise e : Prog σ ε ω lbl err α).Within W E := trivial

@[simp] theorem within_rollback {k : Prog σ ε ω lbl err α} :
    (rollback k).Within W E ↔ k.Within W E := Iff.rfl

theorem Within.bind {p : Prog σ ε ω lbl err α} {f : α → Prog σ ε ω lbl err β}
    (hp : p.Within W E) (hf : ∀ a, (f a).Within W E) : (p.bind f).Within W E := by
  induction p with
  | ret a => exact hf a
  | raise e => exact trivial
  | stmt l w x k ih => exact fun v e => ⟨(hp v e).1, (hp v e).2.1, ih v e (hp v e).2.2⟩
  | commit l x k ih => exact ⟨hp.1, ih hp.2⟩
  | rollback k ih => exact ih hp

theorem Within.of_eq {p : Prog σ ε ω lbl err α} (hE : ∀ e, E e e) (hp : p.Within W Eq) :
    p.Within W E := by
  induction p with
  | ret a => exact trivial
  | raise e => exact trivial
  | stmt l w x k ih => exact fun v e => ⟨(hp v e).1, (hp v e).2.1 ▸ hE e, ih v e (hp v e).2.2⟩
  | commit l x k ih => exact ⟨fun e => hp.1 e ▸ hE e, ih hp.2⟩
  | rollback k ih => exact ih hp

@[simp] theorem Within.read (hE : ∀ e, E e e) {l : lbl} {q : σ → ε → α} :
    (read l q : Prog σ ε ω lbl err α).Within W E :=
  fun _ e => ⟨by simp, hE e, trivial⟩

theorem Within.write (hE : ∀ e, E e e) {l : lbl} {w : σ → ε → List ω} {q : σ → ε → α}
    (hw : ∀ v e, ∀ o ∈ w v e, W o) : (write l w q : Prog σ ε ω lbl err α).Within W E :=
  fun v e => ⟨hw v e, hE e, trivial⟩

theorem Within.write_one (hE : ∀ e, E e e) {l : lbl} {w : σ → ε → ω} {q : σ → ε → α}
    (hw : ∀ v e, W (w v e)) :
    (Prog.write l (fun v e => [w v e]) q : Prog σ ε ω lbl err α).Within W E :=
  Within.write hE fun v e => List.forall_mem_singleton.mpr (hw v e)

theorem Within.effect {l : lbl} {x : σ → ε → ε} (hx : ∀ v e, E e (x v e)) :
    (effect l x : Prog σ ε ω lbl err Unit).Within W E :=
  fun v e => ⟨by simp, hx v e, trivial⟩

@[simp] theorem Within.onlyIf {c : Prop} [Decidable c] {p : Prog σ ε ω lbl err Unit}
    (hp : p.Within W E) : (onlyIf c p).Within W E := by
  unfold Prog.onlyIf
  split
  · exact hp
  · exact trivial

@[simp] theorem Within.raiseIf {c : Prop} [Decidable c] {e : err} :
    (raiseIf c e : Prog σ ε ω lbl err Unit).Within W E := by
  unfold Prog.raiseIf
  split
  · exact trivial
  · exact trivial

theorem Within.ite {c : Prop} [Decidable c] {p q : Prog σ ε ω lbl err α}
    (hp : p.Within W E) (hq : q.Within W E) : (if c then p else q).Within W E := by
  split
  · exact hp
  · exact hq

theorem Within.attempt {p : Prog σ ε ω lbl err α} (hp : p.Within W E) : p.attempt.Within W E := by
  induction p with
  | ret a => exact trivial
  | raise e => exact trivial
  | stmt l w x k ih => exact fun v e => ⟨(hp v e).1, (hp v e).2.1, ih v e (hp v e).2.2⟩
  | commit l x k ih => exact ⟨hp.1, ih hp.2⟩
  | rollback k ih => exact ih hp

end Prog

namespace Outline

variable [Store σ ω κ] {O : Outline σ ε ω lbl ρ} {r : ρ}

/-- An assertion that others respect and that writes within `W` and effects within `E` keep. -/
structure Framed (O : Outline σ ε ω lbl ρ) (r : ρ) (W : ω → Prop) (E : ε → ε → Prop)
    (A : List ω → Shared σ ε → Prop) : Prop where
  stable : ∀ l ws s s', A ws s → O.Rely r l ws s s' → O.Inv s' → A ws s'
  stmt : ∀ l ws s new e, A ws s → O.Inv s → (∀ o ∈ new, W o) → E s.ext e →
    O.Step r l (ws ++ new) s (s.tell e) ∧ A (ws ++ new) (s.tell e)
  commit : ∀ l ws s e, A ws s → O.Inv s → E s.ext e →
    O.Step r l ws s (s.commit ws e) ∧ A [] (s.commit ws e)
  rollback : ∀ ws s, A ws s → A [] s

variable {p : Prog σ ε ω lbl err α} {ws : List ω} {s : Shared σ ε}

section

variable {W : ω → Prop} {E : ε → ε → Prop} {A : List ω → Shared σ ε → Prop}
  (hA : O.Framed r W E A) (hp : p.Within W E)

include hA hp

/-- The frame rule. -/
theorem wp_within (hs : A ws s) : O.wp r p (fun _ ws s => A ws s) ws s := by
  induction p generalizing ws s with
  | ret a => exact hs
  | raise e => exact trivial
  | stmt l w x k ih =>
    intro s' hrely hinv _
    obtain ⟨hw, hx, hk⟩ := hp (s'.view ws) s'.ext
    obtain ⟨hstep, hnew⟩ := hA.stmt l ws s' _ _ (hA.stable _ ws s s' hs hrely hinv) hinv hw hx
    exact ⟨hstep, ih _ _ hk hnew⟩
  | commit l x k ih =>
    intro s' hrely hinv _
    obtain ⟨hstep, hnew⟩ :=
      hA.commit l ws s' _ (hA.stable _ ws s s' hs hrely hinv) hinv (hp.1 s'.ext)
    exact ⟨hstep, ih hp.2 hnew⟩
  | rollback k ih =>
    intro s' hrely hinv
    exact ih hp (hA.rollback ws s' (hA.stable _ ws s s' hs hrely hinv))

/-- The frame rule for the first part of a handler. -/
theorem wp_within_bind {f : α → Prog σ ε ω lbl err β} {R : β → List ω → Shared σ ε → Prop}
    (hs : A ws s) (hf : ∀ a ws s, A ws s → O.wp r (f a) R ws s) : O.wp r (p.bind f) R ws s :=
  wp_seq (wp_within hA hp hs) hf

/-- The frame rule for a whole handler. -/
theorem safe_within (hs : A ws s) : O.Safe r p ws s :=
  wp_mono (wp_within hA hp hs) fun _ _ _ _ => trivial

end

/-- A `try` whose failures lead to the assertion from anywhere. -/
theorem wp_attempt {Q : α → List ω → Shared σ ε → Prop}
    {R : Except err α → List ω → Shared σ ε → Prop}
    (hp : O.wp r p Q ws s) (hok : ∀ a ws s, Q a ws s → R (.ok a) ws s)
    (herror : ∀ e ws s, R (.error e) ws s) : O.wp r p.attempt R ws s := by
  induction p generalizing ws s with
  | ret a => exact hok a ws s hp
  | raise e => exact herror e ws s
  | stmt l w x k ih =>
    intro s' hrely hinv hcond
    obtain ⟨hstep, hk⟩ := hp s' hrely hinv hcond
    exact ⟨hstep, ih _ _ hk⟩
  | commit l x k ih =>
    intro s' hrely hinv hcond
    obtain ⟨hstep, hk⟩ := hp s' hrely hinv hcond
    exact ⟨hstep, ih hk⟩
  | rollback k ih => exact fun s' hrely hinv => ih (hp s' hrely hinv)

/-- A fact about the shared state that neither the others nor the request's own steps can break
is kept by any handler. -/
theorem wp_and_stable {K : Shared σ ε → Prop} {Q : α → List ω → Shared σ ε → Prop}
    (hrely : ∀ l ws s s', K s → O.Rely r l ws s s' → O.Inv s' → K s')
    (hguar : ∀ l ws s s', K s → O.Step r l ws s s' → K s') (hwp : O.wp r p Q ws s) (hK : K s) :
    O.wp r p (fun a ws s => Q a ws s ∧ K s) ws s := by
  induction p generalizing ws s with
  | ret a => exact ⟨hwp, hK⟩
  | raise e => exact trivial
  | stmt l w x k ih =>
    intro s' hs' hinv hcond
    obtain ⟨hstep, hk⟩ := hwp s' hs' hinv hcond
    exact ⟨hstep, ih _ _ hk (hguar _ _ _ _ (hrely _ _ _ _ hK hs' hinv) hstep)⟩
  | commit l x k ih =>
    intro s' hs' hinv hcond
    obtain ⟨hstep, hk⟩ := hwp s' hs' hinv hcond
    exact ⟨hstep, ih hk (hguar _ _ _ _ (hrely _ _ _ _ hK hs' hinv) hstep)⟩
  | rollback k ih =>
    intro s' hs' hinv
    exact ih (hwp s' hs' hinv) (hrely _ _ _ _ hK hs' hinv)

end Outline

end ReadCommitted
