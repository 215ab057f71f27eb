import RcqServer.ReadCommitted.Serial
import RcqServer.ReadCommitted.Transaction

/-!
# Requests beside which nobody commits

If no request commits while another one is in flight, a request finds the database as it was when
it started, whatever else has happened in between, and so it is enough to say what each request may
commit (`Outline.alone T`).  What is proved of it holds of every such run (`World.inv_of_alone`),
and of a request that is served alone (`wlp_of_wp`).
-/

namespace ReadCommitted

open Outline

variable {σ ε ω κ lbl err ρ ρ' α β : Type}

namespace Outline

variable [Store σ ω κ] {T : ρ → σ → σ → Prop} {r : ρ} {p : Prog σ ε ω lbl err α} {ws : List ω}
  {s : Shared σ ε} {Q : α → List ω → Shared σ ε → Prop}

/-- Between two statements of a request nobody commits, and what it commits is within `T`. -/
def alone (T : ρ → σ → σ → Prop) : Outline σ ε ω lbl ρ where
  Inv _ := True
  Rely _ l _ s s' := l ≠ none → s'.db = s.db
  Guar r _ _ s s' := s'.db = s.db ∨ s'.hist ≠ s.hist ∧ T r s.db s'.db
  Start _ _ := True
  Cond _ _ _ := True
  Apart _ _ l' _ := l' = none

theorem alone_coherent : (alone T : Outline σ ε ω lbl ρ).Coherent where
  rely_refl _ _ _ _ _ := rfl
  rely_trans _ _ _ _ _ _ h h' hl := (h' hl).trans (h hl)
  guar_refl _ _ _ _ := .inl rfl
  rely_of_guar _ _ _ _ _ _ _ _ _ hstep _ hapart hl :=
    hstep.guar.resolve_right fun hcommit => hl (hapart.resolve_left hcommit.1)

/-- A request may be looked at as another one that may commit as much. -/
theorem wp_alone_mono {T' : ρ' → σ → σ → Prop} {r' : ρ'} (hT : ∀ d d', T r d d' → T' r' d d')
    (hwp : (alone T).wp r p Q ws s) : (alone T').wp r' p Q ws s := by
  induction p generalizing ws s with
  | ret a => exact hwp
  | raise e => exact trivial
  | stmt l w x k ih =>
    intro s' hrely hinv hcond
    exact ⟨⟨trivial, .inl rfl⟩, ih _ _ (hwp s' hrely hinv hcond).2⟩
  | commit l x k ih =>
    intro s' hrely hinv hcond
    obtain ⟨hstep, hk⟩ := hwp s' hrely hinv hcond
    exact ⟨⟨trivial, hstep.guar.imp id (And.imp_right (hT _ _))⟩, ih hk⟩
  | rollback k ih => exact fun s' hrely hinv => ih (hwp s' hrely hinv)

/-- A request that is served alone, and leaves the database as it is where it fails. -/
theorem wlp_of_wp {db : σ} (hp : p.Atomic ∧ s.db = db ∨ p.Succeeds)
    (hwp : (alone T).wp r p Q ws s) : p.wlp (·.db = db) Q ws s := by
  induction p generalizing ws s with
  | ret a => exact hwp
  | raise e => exact (hp.resolve_right id).2
  | stmt l w x k ih =>
    refine ih _ _ (hp.imp (fun h => ⟨h.1 _ _, h.2⟩) fun h => h _ _) ?_
    exact (hwp s (fun _ => rfl) trivial trivial).2
  | commit l x k ih =>
    exact ih (.inr (hp.elim And.left id)) (hwp s (fun _ => rfl) trivial trivial).2
  | rollback k ih => exact ih hp (hwp s (fun _ => rfl) trivial)

end Outline

/-! ## Runs -/

/-- Only requests in `S` are made. -/
def Action.Starts (S : ρ → Prop) : Action ρ → Prop
  | .start r => S r
  | _ => True

instance {S : ρ → Prop} [DecidablePred S] : DecidablePred (Action.Starts S)
  | .start r => inferInstanceAs (Decidable (S r))
  | .step _ | .kill _ => isTrue trivial

namespace World

/-- No request commits while another one is in flight. -/
def CommitsAlone (w : World σ ε ω lbl err ρ α) : Action ρ → Prop
  | .step k => w.committing k → ∀ j < w.sessions.length, j ≠ k → (w.upcoming j).isNone
  | _ => True

instance (w : World σ ε ω lbl err ρ α) : DecidablePred w.CommitsAlone
  | .step _ => inferInstanceAs (Decidable (_ → _))
  | .start _ | .kill _ => isTrue trivial

variable [Store σ ω κ] [DecidableEq κ] {T : ρ → σ → σ → Prop}
  {handler : ρ → Prog σ ε ω lbl err α} {w w' : World σ ε ω lbl err ρ α} {db : σ} {ext : ε}

private theorem allows_alone {a : Action ρ} (halone : w.CommitsAlone a) :
    (alone T).Allows w a := by
  cases a with
  | start r => exact trivial
  | kill k => exact trivial
  | step k =>
    intro r p ws hk
    refine ⟨fun _ _ => trivial, fun hcommit l _ j r' p' ws' hj hother => ?_⟩
    have hidle := halone (committing_of_running hk hcommit) j
      (List.getElem?_eq_some_iff.mp hother).1 hj
    refine Option.eq_none_iff_forall_ne_some.mpr fun l' hl' => ?_
    rw [upcoming_of_running hother hl'] at hidle
    cases hidle

/-- A step leaves the database as it is, or is a commit of the request that makes it. -/
theorem step_of_alone (hsafe : ∀ r s, (alone T).Safe r (handler r) [] s)
    (hrun : Run handler CommitsAlone (.fresh db ext) w) {k : ℕ} (halone : w.CommitsAlone (.step k))
    (hnext : w.next handler (.step k) = some w') : w'.shared.db = w.shared.db ∨
      ∃ r l, w.upcoming k = some (r, l) ∧ T r w.shared.db w'.shared.db := by
  have hallowed : Run handler (alone T).Allows (.fresh db ext) w :=
    Run.mono (fun _ _ => allows_alone) hrun
  rcases step_of_run alone_coherent (fun r s _ _ => hsafe r s) trivial hallowed
    (allows_alone halone) hnext with hsame | ⟨r, l, ws, hr, -, hstep⟩
  · exact .inl (congrArg Shared.db hsame)
  · exact hstep.guar.imp id fun hcommit => ⟨r, l, hr, hcommit.2⟩

/-- **One at a time.**  What every commit keeps is kept by every run in which no request commits
while another one is in flight. -/
theorem inv_of_alone {J : σ → Prop} (hsafe : ∀ r s, (alone T).Safe r (handler r) [] s)
    (hT : ∀ r d d', J d → T r d d' → J d') (hinit : J db)
    (hrun : Run handler CommitsAlone (.fresh db ext) w) : J w.shared.db := by
  induction hrun with
  | refl => exact hinit
  | tail hbefore hlast ih =>
    obtain ⟨a, halone, hnext⟩ := hlast
    cases a with
    | start r =>
      obtain rfl := Option.some.inj hnext
      exact ih
    | kill k =>
      obtain ⟨_, _, _, -, rfl⟩ := next_kill_cases hnext
      exact ih
    | step k =>
      rcases step_of_alone hsafe hbefore halone hnext with hsame | ⟨r, -, -, hcommit⟩
      · rw [hsame]
        exact ih
      · exact hT r _ _ ih hcommit

end World

end ReadCommitted
