import RcqServer.ReadCommitted.Frame

/-!
# What happens outside the transactions

Some services keep all that matters in a store of keys, where every command is atomic and takes
effect at once.  An invariant of such a store needs no rely and no guarantee: it has to be kept by
every command, in whatever order the commands of the requests come.

`Prog.Follows S p` says that every statement of the program, whatever it and those before it have
read, takes the outside state along `S` of its label.  `World.ext_inv_of_run` carries an invariant
through every run of such programs.
-/

namespace ReadCommitted

variable {σ ε ω κ lbl err ρ α β : Type}

/-- No database: all there is lies outside. -/
instance : Store Unit Empty Empty where
  apply w := nomatch w
  key w := nomatch w

namespace Prog

/-- Every statement acts on the outside state as `S` of its label says. -/
def Follows (S : lbl → ε → ε → Prop) : Prog σ ε ω lbl err α → Prop
  | ret _ => True
  | raise _ => True
  | stmt l _ x k => ∀ v e, S l e (x v e) ∧ (k v e).Follows S
  | commit l x k => (∀ e, S l e (x e)) ∧ k.Follows S
  | rollback k => k.Follows S

variable {S : lbl → ε → ε → Prop}

theorem Follows.bind {p : Prog σ ε ω lbl err α} {f : α → Prog σ ε ω lbl err β}
    (hp : p.Follows S) (hf : ∀ a, (f a).Follows S) : (p.bind f).Follows S := by
  induction p with
  | ret a => exact hf a
  | raise e => exact trivial
  | stmt l w x k ih => exact fun v e => ⟨(hp v e).1, ih v e (hp v e).2⟩
  | commit l x k ih => exact ⟨hp.1, ih hp.2⟩
  | rollback k ih => exact ih hp

theorem Follows.read {l : lbl} (hS : ∀ e, S l e e) (q : σ → ε → α) :
    (read l q : Prog σ ε ω lbl err α).Follows S :=
  fun _ e => ⟨hS e, trivial⟩

theorem Follows.effect {l : lbl} {x : σ → ε → ε} (hx : ∀ v e, S l e (x v e)) :
    (effect l x : Prog σ ε ω lbl err Unit).Follows S :=
  fun v e => ⟨hx v e, trivial⟩

theorem Follows.ite {c : Prop} [Decidable c] {p q : Prog σ ε ω lbl err α}
    (hp : p.Follows S) (hq : q.Follows S) : (if c then p else q).Follows S := by
  split
  · exact hp
  · exact hq

end Prog

section Invariant

/-- The outline of an invariant `I` of the outside state, for runs whose statements meet `C`. -/
def Outline.outside (I : ε → Prop) (C : lbl → ε → Prop) : Outline σ ε ω lbl ρ where
  Inv s := I s.ext
  Rely _ _ _ _ _ := True
  Guar _ _ _ _ _ := True
  Start _ _ := True
  Cond _ l s := C l s.ext
  Apart _ _ _ _ := True

variable [Store σ ω κ] {S : lbl → ε → ε → Prop} {I : ε → Prop} {C : lbl → ε → Prop}

theorem Outline.outside_coherent : (outside I C : Outline σ ε ω lbl ρ).Coherent where
  rely_refl _ _ _ _ := trivial
  rely_trans _ _ _ _ _ _ _ _ := trivial
  guar_refl _ _ _ _ := trivial
  rely_of_guar _ _ _ _ _ _ _ _ _ _ _ _ := trivial

theorem Prog.Follows.wp (hkeep : ∀ l e e', C l e → S l e e' → I e → I e')
    {p : Prog σ ε ω lbl err α} (hp : p.Follows S) (r : ρ) (ws : List ω) (s : Shared σ ε) :
    (Outline.outside I C).Safe r p ws s := by
  induction p generalizing ws s with
  | ret a => exact trivial
  | raise e => exact trivial
  | stmt l f x k ih =>
    intro s' _ hinv hcond
    obtain ⟨hS, hk⟩ := hp (s'.view ws) s'.ext
    exact ⟨⟨hkeep l _ _ hcond hS hinv, trivial⟩, ih _ _ hk _ _⟩
  | commit l x k ih =>
    intro s' _ hinv hcond
    exact ⟨⟨hkeep l _ _ hcond (hp.1 s'.ext) hinv, trivial⟩, ih hp.2 _ _⟩
  | rollback k ih => exact fun s' _ _ => ih hp _ _

variable [DecidableEq κ] {handler : ρ → Prog σ ε ω lbl err α} {w : World σ ε ω lbl err ρ α}

/-- **Invariants of the outside state.**  What every statement keeps where it meets its condition
holds after every run whose steps all do. -/
theorem World.ext_inv_of_run (hhandler : ∀ r, (handler r).Follows S)
    (hkeep : ∀ l e e', C l e → S l e e' → I e → I e')
    {ok : World σ ε ω lbl err ρ α → Action ρ → Prop}
    (hok : ∀ w n, ok w (.step n) → ∀ x ∈ w.upcoming n, C x.2 w.shared.ext)
    {db : σ} {ext : ε} (hinit : I ext) (hrun : World.Run handler ok (.fresh db ext) w) :
    I w.shared.ext := by
  have hallows := Outline.allows_of_upcoming (O := Outline.outside I C) (fun _ _ => trivial)
    (fun _ _ _ _ => trivial) hok
  exact Outline.inv_of_run Outline.outside_coherent
    (fun r s _ _ => (hhandler r).wp hkeep r [] s) hinit (World.Run.mono hallows hrun)

end Invariant

end ReadCommitted
