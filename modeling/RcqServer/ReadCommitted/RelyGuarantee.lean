import RcqServer.ReadCommitted.Interleaving

/-!
# Rely/guarantee reasoning for interleaved requests

An `Outline` says, for one system of handlers,

* what is true of the shared state between any two statements (`Inv`),
* what one step of a request may do to the shared state (`Guar`),
* what a request with given pending writes, about to run a given statement, may count on when
  others step in between (`Rely`),
* under which conditions a statement is scheduled (`Start`, `Cond`, `Apart`).

`Outline.wp` is the weakest precondition of a handler against such an outline: at every statement
the shared state may first move along `Rely`.  That it is enough for every handler to meet its
weakest precondition is the subject of `ReadCommitted.Adequacy`.
-/

namespace ReadCommitted

variable {σ ε ω κ lbl err ρ α β : Type} [Store σ ω κ]

/-- The assertions of a rely/guarantee proof.  `Rely r l ws s s'` is about the time in which `l` is
the statement that request `r` runs next.  `Guar r l ws s s'` is about its step `l`, after which it
holds the pending writes `ws`, or, for a commit, with which it commits them. -/
structure Outline (σ ε ω lbl ρ : Type) where
  Inv : Shared σ ε → Prop
  Rely : ρ → Option lbl → List ω → Shared σ ε → Shared σ ε → Prop
  Guar : ρ → lbl → List ω → Shared σ ε → Shared σ ε → Prop
  /-- A request may start here. -/
  Start : ρ → Shared σ ε → Prop
  /-- A request may run the statement with this label here. -/
  Cond : ρ → lbl → Shared σ ε → Prop
  /-- The first writes may be committed by a statement while another session holds the second and
  is about to run the given one. -/
  Apart : lbl → List ω → Option lbl → List ω → Prop

namespace Outline

variable (O : Outline σ ε ω lbl ρ)

/-- One step from `s` to `s'` is within the outline. -/
structure Step (r : ρ) (l : lbl) (ws : List ω) (s s' : Shared σ ε) : Prop where
  inv : O.Inv s'
  guar : O.Guar r l ws s s'

/-- The weakest precondition of a handler for request `r`, from the pending writes `ws`. -/
def wp (r : ρ) : Prog σ ε ω lbl err α → (α → List ω → Shared σ ε → Prop) →
    List ω → Shared σ ε → Prop
  | .ret a, Q, ws, s => Q a ws s
  | .raise _, _, _, _ => True
  | .stmt l f x k, Q, ws, s =>
    ∀ s', O.Rely r (some l) ws s s' → O.Inv s' → O.Cond r l s' →
      O.Step r l (ws ++ f (s'.view ws) s'.ext) s' (s'.tell (x (s'.view ws) s'.ext)) ∧
      wp r (k (s'.view ws) s'.ext) Q (ws ++ f (s'.view ws) s'.ext)
        (s'.tell (x (s'.view ws) s'.ext))
  | .commit l x k, Q, ws, s =>
    ∀ s', O.Rely r (some l) ws s s' → O.Inv s' → O.Cond r l s' →
      O.Step r l ws s' (s'.commit ws (x s'.ext)) ∧ wp r k Q [] (s'.commit ws (x s'.ext))
  | .rollback k, Q, ws, s => ∀ s', O.Rely r none ws s s' → O.Inv s' → wp r k Q [] s'

/-- A handler that keeps the outline, whatever it returns. -/
abbrev Safe (r : ρ) (p : Prog σ ε ω lbl err α) (ws : List ω) (s : Shared σ ε) : Prop :=
  O.wp r p (fun _ _ _ => True) ws s

/-- The side conditions that make the assertions of an outline fit together. -/
structure Coherent : Prop where
  rely_refl : ∀ r l ws s, O.Rely r l ws s s
  rely_trans : ∀ r l ws s₁ s₂ s₃, O.Rely r l ws s₁ s₂ → O.Rely r l ws s₂ s₃ → O.Rely r l ws s₁ s₃
  guar_refl : ∀ r l ws s, O.Guar r l ws s s
  /-- A step of one request is within what any other may count on. -/
  rely_of_guar : ∀ r l ws r' l' ws' s s', O.Inv s → O.Step r l ws s s' →
    (∀ k ∈ lockedRows σ ws', k ∉ lockedRows σ ws) → (s'.hist = s.hist ∨ O.Apart l ws l' ws') →
    O.Rely r' l' ws' s s'

variable {O} {r : ρ} {ws : List ω} {s : Shared σ ε}
  {Q Q' : α → List ω → Shared σ ε → Prop}

/-! ## Rules -/

theorem wp_bind {p : Prog σ ε ω lbl err α} {f : α → Prog σ ε ω lbl err β}
    {R : β → List ω → Shared σ ε → Prop} :
    O.wp r (p.bind f) R ws s ↔ O.wp r p (fun a ws s => O.wp r (f a) R ws s) ws s := by
  induction p generalizing ws s with
  | ret a => rfl
  | raise e => rfl
  | stmt l w x k ih => simp only [Prog.bind, wp, ih]
  | commit l x k ih => simp only [Prog.bind, wp, ih]
  | rollback k ih => simp only [Prog.bind, wp, ih]

variable {l : lbl} {p : Prog σ ε ω lbl err α} {q : σ → ε → α}

theorem wp_mono (hwp : O.wp r p Q ws s)
    (hQ : ∀ a ws s, Q a ws s → Q' a ws s) : O.wp r p Q' ws s := by
  induction p generalizing ws s with
  | ret a => exact hQ a ws s hwp
  | raise e => exact trivial
  | stmt l w x k ih =>
    intro s' hrely hinv hcond
    obtain ⟨hstep, hk⟩ := hwp s' hrely hinv hcond
    exact ⟨hstep, ih _ _ hk⟩
  | commit l x k ih =>
    intro s' hrely hinv hcond
    obtain ⟨hstep, hk⟩ := hwp s' hrely hinv hcond
    exact ⟨hstep, ih hk⟩
  | rollback k ih =>
    intro s' hrely hinv
    exact ih (hwp s' hrely hinv)

/-- Sequencing with an intermediate assertion. -/
theorem wp_seq {f : α → Prog σ ε ω lbl err β}
    {R : β → List ω → Shared σ ε → Prop} (hp : O.wp r p Q ws s)
    (hf : ∀ a ws s, Q a ws s → O.wp r (f a) R ws s) : O.wp r (p.bind f) R ws s :=
  wp_bind.mpr (wp_mono hp hf)

/-- A handler's value may be repackaged. -/
theorem safe_map (hp : O.Safe r p ws s) (f : α → β) : O.Safe r (p.bind fun a => .ret (f a)) ws s :=
  wp_seq hp fun _ _ _ _ => trivial

theorem wp_raiseIf {c : Prop} [Decidable c] {e : err} {Q : Unit → List ω → Shared σ ε → Prop}
    (h : ¬c → Q () ws s) : O.wp r (Prog.raiseIf c e : Prog σ ε ω lbl err Unit) Q ws s := by
  unfold Prog.raiseIf
  split
  · exact trivial
  · exact h ‹_›

theorem wp_raiseIf_bind {c : Prop} [Decidable c] {e : err} {f : Unit → Prog σ ε ω lbl err α}
    (h : ¬c → O.wp r (f ()) Q ws s) : O.wp r ((Prog.raiseIf c e).bind f) Q ws s := by
  unfold Prog.raiseIf
  split
  · exact trivial
  · exact h ‹_›

theorem wp_onlyIf {c : Prop} [Decidable c] {p : Prog σ ε ω lbl err Unit}
    {Q : Unit → List ω → Shared σ ε → Prop} (hyes : c → O.wp r p Q ws s) (hno : ¬c → Q () ws s) :
    O.wp r (Prog.onlyIf c p) Q ws s := by
  unfold Prog.onlyIf
  split
  · exact hyes ‹_›
  · exact hno ‹_›

/-- A statement that only reads, where standing still is within the guarantee. -/
theorem wp_query (hrefl : ∀ l ws s, O.Guar r l ws s s)
    (h : ∀ s', O.Rely r (some l) ws s s' → O.Inv s' → O.Cond r l s' →
      Q (q (s'.view ws) s'.ext) ws s') : O.wp r (Prog.read l q : Prog σ ε ω lbl err α) Q ws s := by
  intro s' hrely hinv hcond
  simp only [List.append_nil, Shared.tell_same]
  exact ⟨⟨hinv, hrefl l ws s'⟩, h s' hrely hinv hcond⟩

theorem wp_read (hO : O.Coherent) (h : ∀ s', O.Rely r (some l) ws s s' → O.Inv s' → O.Cond r l s' →
      Q (q (s'.view ws) s'.ext) ws s') : O.wp r (Prog.read l q : Prog σ ε ω lbl err α) Q ws s :=
  wp_query (hO.guar_refl r) h

/-- The rule of a read that a handler goes on from. -/
theorem wp_read_bind {f : α → Prog σ ε ω lbl err β} {R : β → List ω → Shared σ ε → Prop}
    (hO : O.Coherent) (h : ∀ s', O.Rely r (some l) ws s s' → O.Inv s' → O.Cond r l s' →
      O.wp r (f (q (s'.view ws) s'.ext)) R ws s') : O.wp r ((Prog.read l q).bind f) R ws s :=
  wp_bind.mpr (wp_read hO h)

theorem wp_update {f : σ → ε → List ω} (hrefl : ∀ l ws s, O.Guar r l ws s s)
    (h : ∀ s', O.Rely r (some l) ws s s' → O.Inv s' → O.Cond r l s' →
      Q (q (s'.view ws) s'.ext) (ws ++ f (s'.view ws) s'.ext) s') :
    O.wp r (Prog.write l f q : Prog σ ε ω lbl err α) Q ws s := by
  intro s' hrely hinv hcond
  simp only [Shared.tell_same]
  exact ⟨⟨hinv, hrefl l _ s'⟩, h s' hrely hinv hcond⟩

theorem wp_write {f : σ → ε → List ω} (hO : O.Coherent)
    (h : ∀ s', O.Rely r (some l) ws s s' → O.Inv s' → O.Cond r l s' →
      Q (q (s'.view ws) s'.ext) (ws ++ f (s'.view ws) s'.ext) s') :
    O.wp r (Prog.write l f q : Prog σ ε ω lbl err α) Q ws s :=
  wp_update (hO.guar_refl r) h

theorem wp_write_bind {g : σ → ε → List ω} {f : α → Prog σ ε ω lbl err β}
    {R : β → List ω → Shared σ ε → Prop} (hO : O.Coherent)
    (h : ∀ s', O.Rely r (some l) ws s s' → O.Inv s' → O.Cond r l s' →
      O.wp r (f (q (s'.view ws) s'.ext)) R (ws ++ g (s'.view ws) s'.ext) s') :
    O.wp r ((Prog.write l g q).bind f) R ws s :=
  wp_bind.mpr (wp_write hO h)

theorem wp_effect {x : σ → ε → ε} {Q : Unit → List ω → Shared σ ε → Prop}
    (h : ∀ s', O.Rely r (some l) ws s s' → O.Inv s' → O.Cond r l s' →
      O.Step r l ws s' (s'.tell (x (s'.view ws) s'.ext)) ∧
      Q () ws (s'.tell (x (s'.view ws) s'.ext))) :
    O.wp r (Prog.effect l x : Prog σ ε ω lbl err Unit) Q ws s := by
  intro s' hrely hinv hcond
  simp only [List.append_nil]
  exact h s' hrely hinv hcond

theorem wp_commit {x : ε → ε} {k : Prog σ ε ω lbl err α}
    (h : ∀ s', O.Rely r (some l) ws s s' → O.Inv s' → O.Cond r l s' →
      O.Step r l ws s' (s'.commit ws (x s'.ext)) ∧ O.wp r k Q [] (s'.commit ws (x s'.ext))) :
    O.wp r (Prog.commit l x k) Q ws s := h

/-! ## Scheduling conditions -/

section Interleaved

variable [DecidableEq κ] (O) in
/-- The scheduling condition of an outline. -/
def Allows (w : World σ ε ω lbl err ρ α) : Action ρ → Prop
  | .start r => O.Start r w.shared
  | .step n => ∀ r p ws, w.sessions[n]? = some (.running r p ws) →
      (∀ l ∈ p.label?, O.Cond r l w.shared) ∧
      (p.atCommit → ∀ l ∈ p.label?, ∀ (m : ℕ) r' p' ws', m ≠ n →
        w.sessions[m]? = some (.running r' p' ws') → O.Apart l ws p'.label? ws')
  | .kill _ => True

omit [Store σ ω κ] in
/-- An outline without scheduling conditions allows every action. -/
theorem allows_of_forall (hstart : ∀ r s, O.Start r s)
    (hcond : ∀ r l s, O.Cond r l s) (hapart : ∀ l ws l' ws', O.Apart l ws l' ws')
    (w : World σ ε ω lbl err ρ α) (a : Action ρ) : O.Allows w a := by
  cases a with
  | start r => exact hstart r w.shared
  | step n =>
    intro r p ws _
    exact ⟨fun l _ => hcond r l w.shared, fun _ l _ _ _ p' ws' _ _ => hapart l ws p'.label? ws'⟩
  | kill n => exact trivial

omit [Store σ ω κ] in
/-- An outline whose only scheduling conditions are on the statements. -/
theorem allows_of_upcoming {ok : World σ ε ω lbl err ρ α → Action ρ → Prop}
    (hstart : ∀ r s, O.Start r s) (hapart : ∀ l ws l' ws', O.Apart l ws l' ws')
    (hok : ∀ w n, ok w (.step n) → ∀ x ∈ w.upcoming n, O.Cond x.1 x.2 w.shared)
    (w : World σ ε ω lbl err ρ α) (a : Action ρ) (ha : ok w a) : O.Allows w a := by
  cases a with
  | start r => exact hstart r w.shared
  | step n =>
    intro r p ws hn
    refine ⟨fun l hl => ?_, fun _ l _ _ _ p' ws' _ _ => hapart l ws p'.label? ws'⟩
    exact hok w n ha (r, l) (World.upcoming_of_running hn hl)
  | kill n => exact trivial

end Interleaved

end Outline

end ReadCommitted
