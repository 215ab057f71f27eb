import RcqServer.ReadCommitted.RelyGuarantee

/-!
# Adequacy of rely/guarantee outlines

If every handler meets its weakest precondition from every state of the invariant, the invariant
holds after every run that keeps the scheduling conditions, however the statements interleave
(`Outline.inv_of_run`), and every step of such a run is within its guarantee
(`Outline.step_of_run`).

Both come from a statement about outlines that tell sessions apart.  There a request carries the
number of the session that serves it, so an assertion can be about one session; two sessions count
on each other's guarantees only as far as their numbers differ and the schedule lets them run side
by side (`B`); and a session that returns has reached its postcondition (`Q`).
-/

namespace ReadCommitted

open Option World

variable {σ ε ω κ lbl err ρ α : Type} [Store σ ω κ]

namespace Outline

/-! ## Sessions side by side -/

section Beside

/-- The side conditions that make the assertions of an outline fit together, for sessions with
different numbers whose requests are related by `B`. -/
structure CoherentBeside (O : Outline σ ε ω lbl (ℕ × ρ)) (B : ρ → ρ → Prop) : Prop where
  rely_refl : ∀ r l ws s, O.Rely r l ws s s
  rely_trans : ∀ r l ws s₁ s₂ s₃, O.Rely r l ws s₁ s₂ → O.Rely r l ws s₂ s₃ → O.Rely r l ws s₁ s₃
  rely_of_guar : ∀ n r l ws n' r' l' ws' s s', n ≠ n' → B r r' → O.Inv s →
    O.Step (n, r) l ws s s' → (∀ k ∈ lockedRows σ ws', k ∉ lockedRows σ ws) →
    (s'.hist = s.hist ∨ O.Apart l ws l' ws') → O.Rely (n', r') l' ws' s s'

/-- The scheduling condition of an outline that tells sessions apart: a request starts only beside
requests that it may run with. -/
def AllowsBeside (O : Outline σ ε ω lbl (ℕ × ρ)) (B : ρ → ρ → Prop)
    (w : World σ ε ω lbl err ρ α) : Action ρ → Prop
  | .start r => O.Start (w.sessions.length, r) w.shared ∧
      ∀ (m : ℕ) r' p ws, w.sessions[m]? = some (.running r' p ws) → B r r' ∧ B r' r
  | .step n => ∀ r p ws, w.sessions[n]? = some (.running r p ws) →
      (∀ l ∈ p.label?, O.Cond (n, r) l w.shared) ∧
      (p.atCommit → ∀ l ∈ p.label?, ∀ (m : ℕ) r' p' ws', m ≠ n →
        w.sessions[m]? = some (.running r' p' ws') → O.Apart l ws p'.label? ws')
  | .kill _ => True

/-- What holds of every reachable world: the invariant, and for every running session its weakest
precondition from here, locks that no other session holds, and company that it may have. -/
structure GoodBeside (O : Outline σ ε ω lbl (ℕ × ρ)) (B : ρ → ρ → Prop)
    (Q : ℕ × ρ → α → List ω → Shared σ ε → Prop) (w : World σ ε ω lbl err ρ α) : Prop where
  inv : O.Inv w.shared
  safe : ∀ (n : ℕ) r p ws, w.sessions[n]? = some (.running r p ws) →
    O.wp (n, r) p (Q (n, r)) ws w.shared
  locks : ∀ n m, n ≠ m → ∀ k ∈ w.locked n, k ∉ w.locked m
  beside : ∀ (n m : ℕ) r p ws r' p' ws', n ≠ m → w.sessions[n]? = some (.running r p ws) →
    w.sessions[m]? = some (.running r' p' ws') → B r r'

variable {O : Outline σ ε ω lbl (ℕ × ρ)} {B : ρ → ρ → Prop}
  {Q : ℕ × ρ → α → List ω → Shared σ ε → Prop} {handler : ρ → Prog σ ε ω lbl err α}
  {w w' : World σ ε ω lbl err ρ α} {n : ℕ} {r : ρ} {ws : List ω}

/-- Others keep what a session ends with. -/
def Stable (O : Outline σ ε ω lbl (ℕ × ρ)) (Q : ℕ × ρ → α → List ω → Shared σ ε → Prop) : Prop :=
  ∀ r a ws s s', Q r a ws s → O.Rely r none ws s s' → O.Inv s' → Q r a ws s'

variable {p : Prog σ ε ω lbl err α}

/-- What others do in between keeps the weakest precondition. -/
private theorem safe_of_rely (hO : O.CoherentBeside B) (hQ : Stable O Q) {r : ℕ × ρ} {s s' : Shared σ ε} (hsafe : O.wp r p (Q r) ws s)
    (hrely : O.Rely r p.label? ws s s') (hinv : O.Inv s') : O.wp r p (Q r) ws s' := by
  cases p with
  | ret a => exact hQ r a ws s s' hsafe hrely hinv
  | raise e => exact trivial
  | stmt l w x k => exact fun t ht => hsafe t (hO.rely_trans _ _ _ _ _ _ hrely ht)
  | commit l x k => exact fun t ht => hsafe t (hO.rely_trans _ _ _ _ _ _ hrely ht)
  | rollback k => exact fun t ht => hsafe t (hO.rely_trans _ _ _ _ _ _ hrely ht)

private theorem locked_of_running
    (hn : w.sessions[n]? = some (.running r p ws)) : w.locked n = lockedRows σ ws := by
  simp [locked, hn, Session.locked]

private theorem locked_congr {m : ℕ} (h : w'.sessions[m]? = w.sessions[m]?) :
    w'.locked m = w.locked m := by
  simp [locked, h]

private theorem locked_of_le {m : ℕ} (h : w.sessions.length ≤ m) : w.locked m = [] := by
  simp [locked, List.getElem?_eq_none h]

/-- Locks stay disjoint when one session changes to locks that the others do not hold. -/
private theorem locks_of_change (hlocks : ∀ n m, n ≠ m → ∀ k ∈ w.locked n, k ∉ w.locked m)
    (hother : ∀ m, n ≠ m → w'.locked m = w.locked m)
    (hself : ∀ m, n ≠ m → ∀ k ∈ w'.locked n, k ∉ w.locked m) :
    ∀ a b, a ≠ b → ∀ k ∈ w'.locked a, k ∉ w'.locked b := by
  intro a b hab k hka hkb
  by_cases ha : n = a
  · subst ha
    rw [hother b hab] at hkb
    exact hself b hab k hka hkb
  · rw [hother a ha] at hka
    by_cases hb : n = b
    · subst hb
      exact hself a ha k hkb hka
    · rw [hother b hb] at hkb
      exact hlocks a b hab k hka hkb

/-- A step of session `n` brings no new company. -/
private theorem beside_of_change {next : Session σ ε ω lbl err ρ α} (hgood : O.GoodBeside B Q w)
    (hn : w.sessions[n]? = some (.running r p ws)) (hnext : w'.sessions[n]? = some next)
    (hother : ∀ m : ℕ, n ≠ m → w'.sessions[m]? = w.sessions[m]?)
    (hsame : ∀ r' p' ws', next = .running r' p' ws' → r' = r) :
    ∀ (a b : ℕ) r p ws r' p' ws', a ≠ b → w'.sessions[a]? = some (.running r p ws) →
      w'.sessions[b]? = some (.running r' p' ws') → B r r' := by
  intro a b ra pa wa rb pb wb hab ha hb
  by_cases hna : n = a
  · subst hna
    obtain rfl := hsame ra pa wa (some.inj (hnext.symm.trans ha))
    rw [hother b hab] at hb
    exact hgood.beside n b ra p ws rb pb wb hab hn hb
  rw [hother a hna] at ha
  by_cases hnb : n = b
  · subst hnb
    obtain rfl := hsame rb pb wb (some.inj (hnext.symm.trans hb))
    exact hgood.beside a n ra pa wa rb p ws hab ha hn
  · rw [hother b hnb] at hb
    exact hgood.beside a b ra pa wa rb pb wb hab ha hb

/-- The step of session `n` keeps `GoodBeside`, given what the step does to the shared state and the
session `next` that it leaves behind. -/
private theorem good_of_step (hO : O.CoherentBeside B) (hQ : Stable O Q)
    (hgood : O.GoodBeside B Q w) {ws₀ : List ω} (hn : w.sessions[n]? = some (.running r p ws₀))
    {next : Session σ ε ω lbl err ρ α} (hnext : w'.sessions[n]? = some next)
    (hother : ∀ m : ℕ, n ≠ m → w'.sessions[m]? = w.sessions[m]?)
    (hstep : w'.shared = w.shared ∨ ∃ l, O.Step (n, r) l ws w.shared w'.shared ∧
      (w'.shared.hist = w.shared.hist ∨ ∀ (m : ℕ) r' p' wo, m ≠ n →
        w.sessions[m]? = some (.running r' p' wo) → O.Apart l ws p'.label? wo))
    (hlocked : ∀ m, n ≠ m → ∀ k ∈ lockedRows σ ws, k ∉ w.locked m)
    (hself : ∀ k ∈ next.locked, k ∈ lockedRows σ ws)
    (hsame : ∀ r' p' ws', next = .running r' p' ws' → r' = r)
    (hsafe : ∀ p' ws', next = .running r p' ws' → O.wp (n, r) p' (Q (n, r)) ws' w'.shared) :
    O.GoodBeside B Q w' where
  inv := by
    rcases hstep with heq | ⟨l, hstep, -⟩
    · rw [heq]
      exact hgood.inv
    · exact hstep.inv
  safe := by
    intro m r' p' wo hm
    by_cases hnm : n = m
    · subst hnm
      have hrunning := some.inj (hnext.symm.trans hm)
      obtain rfl := hsame r' p' wo hrunning
      exact hsafe p' wo hrunning
    rw [hother m hnm] at hm
    have hbefore := hgood.safe m r' p' wo hm
    rcases hstep with heq | ⟨l, hstep, hapart⟩
    · rw [heq]
      exact hbefore
    refine safe_of_rely hO hQ hbefore (hO.rely_of_guar n r l ws m r' _ wo _ _ hnm
      (hgood.beside n m r p ws₀ r' p' wo hnm hn hm) hgood.inv hstep ?_ ?_) hstep.inv
    · intro k hk hk'
      rw [← locked_of_running hm] at hk
      exact hlocked m hnm k hk' hk
    · exact hapart.imp id fun h => h m r' p' wo (Ne.symm hnm) hm
  locks := by
    refine locks_of_change hgood.locks (fun m hm => locked_congr (hother m hm)) ?_
    intro m hm k hk
    rw [locked, hnext] at hk
    exact hlocked m hm k (hself k hk)
  beside := beside_of_change hgood hn hnext hother hsame

private theorem good_start (hgood : O.GoodBeside B Q w)
    (hbeside : ∀ (m : ℕ) r' p ws, w.sessions[m]? = some (.running r' p ws) → B r r' ∧ B r' r)
    (hstart : O.wp (w.sessions.length, r) (handler r) (Q (w.sessions.length, r)) [] w.shared) :
    O.GoodBeside B Q { w with sessions := w.sessions ++ [.running r (handler r) []] } where
  inv := hgood.inv
  safe := by
    intro m r' p' wo hm
    rcases get?_start hm with hold | ⟨rfl, heq⟩
    · exact hgood.safe m r' p' wo hold
    · cases heq
      exact hstart
  locks := by
    have hlocked : ∀ m, locked
        { w with sessions := w.sessions ++ [.running r (handler r) []] } m = w.locked m := by
      intro m
      rcases Nat.lt_trichotomy m w.sessions.length with hlt | heq | hgt
      · simp [locked, List.getElem?_append_left hlt]
      · subst heq
        simp [locked, Session.locked, lockedRows]
      · rw [locked_of_le (by simp; omega), locked_of_le (by omega)]
    intro a b hab
    rw [hlocked a, hlocked b]
    exact hgood.locks a b hab
  beside := by
    intro a b ra pa wa rb pb wb hab ha hb
    rcases get?_start ha with hold | ⟨rfl, heq⟩
    · rcases get?_start hb with hold' | ⟨rfl, heq⟩
      · exact hgood.beside a b ra pa wa rb pb wb hab hold hold'
      · cases heq
        exact (hbeside a ra pa wa hold).2
    · cases heq
      rcases get?_start hb with hold' | ⟨rfl, -⟩
      · exact (hbeside b rb pb wb hold').1
      · exact absurd rfl hab

private theorem good_kill (hgood : O.GoodBeside B Q w)
    (hn : w.sessions[n]? = some (.running r p ws)) : O.GoodBeside B Q (w.put n (.killed r)) where
  inv := hgood.inv
  safe := by
    intro m r' p' wo hm
    by_cases hnm : n = m
    · subst hnm
      rw [put_get?_self hn] at hm
      cases hm
    · rw [put_get?_ne hnm] at hm
      exact hgood.safe m r' p' wo hm
  locks := by
    refine locks_of_change (n := n) hgood.locks
      (fun m hm => locked_congr (put_get?_ne hm _)) ?_
    simp [locked, put_get?_self hn, Session.locked]
  beside := beside_of_change hgood hn (put_get?_self hn)
    (fun m hm => put_get?_ne hm _) nofun

theorem goodBeside_fresh {db : σ} {ext : ε} (hinit : O.Inv ⟨db, ext, []⟩) :
    O.GoodBeside B Q (fresh db ext : World σ ε ω lbl err ρ α) where
  inv := hinit
  safe := by
    intro n r p ws hn
    simp [fresh] at hn
  locks := by
    intro n m _ k hk
    simp [fresh, locked] at hk
  beside := by
    intro n m r p ws r' p' ws' _ hn
    simp [fresh] at hn

variable [DecidableEq κ]

private theorem good_runHead (hO : O.CoherentBeside B) (hQ : Stable O Q)
    (hgood : O.GoodBeside B Q w) (hn : w.sessions[n]? = some (.running r p ws))
    (hcond : ∀ l ∈ p.label?, O.Cond (n, r) l w.shared)
    (hapart : p.atCommit → ∀ l ∈ p.label?, ∀ (m : ℕ) r' p' ws', m ≠ n →
      w.sessions[m]? = some (.running r' p' ws') → O.Apart l ws p'.label? ws')
    (hrun : w.runHead n r ws p = some w') : O.GoodBeside B Q w' := by
  have hsafe := hgood.safe n r p ws hn
  have hlocks := hgood.locks n
  rw [locked_of_running hn] at hlocks
  have hother : ∀ m : ℕ, n ≠ m → w'.sessions[m]? = w.sessions[m]? :=
    fun m hm => runHead_get?_ne hm hrun
  have hnow : O.Rely (n, r) p.label? ws w.shared w.shared := hO.rely_refl _ _ ws w.shared
  have hgoes : ∀ (k : Prog σ ε ω lbl err α) ws' r' p' wo,
      (Session.running r k ws' : Session σ ε ω lbl err ρ α) = .running r' p' wo → r' = r := by
    intro k ws' r' p' wo h
    cases h
    rfl
  -- ending and rolling back leave the shared state alone and hold no lock any more
  cases p with
  | ret a =>
    obtain rfl := some.inj hrun
    exact good_of_step hO hQ hgood hn (put_get?_self hn) hother (.inl rfl) hlocks
      (by simp [Session.locked]) nofun nofun
  | raise e =>
    obtain rfl := some.inj hrun
    exact good_of_step hO hQ hgood hn (put_get?_self hn) hother (.inl rfl) hlocks
      (by simp [Session.locked]) nofun nofun
  | rollback k =>
    obtain rfl := some.inj hrun
    refine good_of_step hO hQ hgood hn (put_get?_self hn) hother (.inl rfl) hlocks
      (by simp [Session.locked, lockedRows]) (hgoes k []) ?_
    intro p' wo hnew
    cases hnew
    exact hsafe w.shared hnow hgood.inv
  | stmt l f x k =>
    simp only [runHead, ite_none_right_eq_some, some.injEq] at hrun
    obtain ⟨hfree, rfl⟩ := hrun
    obtain ⟨hstep, hk⟩ := hsafe w.shared hnow hgood.inv (hcond l rfl)
    refine good_of_step hO hQ hgood hn (put_get?_self hn) hother
      (.inr ⟨l, hstep, .inl rfl⟩) ?_ (fun _ h => h) (hgoes _ _) ?_
    · -- the locks taken now are free, those held before are nobody else's
      intro m hm key hkey hheld
      rw [lockedRows, List.map_append, List.mem_append] at hkey
      rcases hkey with hold | hfresh
      · exact hlocks m hm key hold hheld
      rcases Nat.lt_or_ge m w.sessions.length with hlt | hge
      · exact hfree m hlt (Ne.symm hm) key hheld hfresh
      · simp [locked_of_le hge] at hheld
    · intro p' wo hnew
      cases hnew
      exact hk
  | commit l x k =>
    obtain rfl := some.inj hrun
    obtain ⟨hstep, hk⟩ := hsafe w.shared hnow hgood.inv (hcond l rfl)
    refine good_of_step hO hQ hgood hn (put_get?_self hn) hother
      (.inr ⟨l, hstep, .inr (hapart rfl l rfl)⟩) hlocks (by simp [Session.locked, lockedRows])
      (hgoes k []) ?_
    intro p' wo hnew
    cases hnew
    exact hk

/-- **Adequacy.**  Every run keeps what is good about a world. -/
theorem GoodBeside.of_run (hO : O.CoherentBeside B) (hQ : Stable O Q)
    (hhandler : ∀ n r s, O.Inv s → O.Start (n, r) s → O.wp (n, r) (handler r) (Q (n, r)) [] s)
    (hgood : O.GoodBeside B Q w) (hrun : Run handler (O.AllowsBeside B) w w') :
    O.GoodBeside B Q w' := by
  induction hrun with
  | refl => exact hgood
  | tail _ hlast hgood =>
    obtain ⟨a, hok, hnext⟩ := hlast
    cases a with
    | start r =>
      obtain rfl := some.inj hnext
      exact good_start hgood hok.2 (hhandler _ r _ hgood.inv hok.1)
    | step n =>
      obtain ⟨r, p, ws, hn, hhead⟩ := next_step_cases hnext
      obtain ⟨hcond, hapart⟩ := hok r p ws hn
      exact good_runHead hO hQ hgood hn hcond hapart hhead
    | kill n =>
      obtain ⟨r, p, ws, hn, rfl⟩ := next_kill_cases hnext
      exact good_kill hgood hn

/-- Every step from a good world that changes the shared state is within the guarantee of the
session that makes it. -/
theorem GoodBeside.step (hO : O.CoherentBeside B) (hgood : O.GoodBeside B Q w)
    (hok : O.AllowsBeside B w (.step n)) (hnext : w.next handler (.step n) = some w') :
    w'.shared = w.shared ∨
      ∃ r l ws, w.upcoming n = some (r, l) ∧ O.Step (n, r) l ws w.shared w'.shared := by
  obtain ⟨r, p, ws, hn, hhead⟩ := next_step_cases hnext
  have hsafe := hgood.safe n r p ws hn
  have hnow := hO.rely_refl (n, r) p.label? ws w.shared
  cases p with
  | stmt l f x k =>
    simp only [runHead, ite_none_right_eq_some, some.injEq] at hhead
    obtain ⟨-, rfl⟩ := hhead
    obtain ⟨hstep, -⟩ := hsafe w.shared hnow hgood.inv ((hok r _ ws hn).1 l rfl)
    exact .inr ⟨r, l, _, upcoming_of_running hn rfl, hstep⟩
  | commit l x k =>
    simp only [runHead, some.injEq] at hhead
    subst hhead
    obtain ⟨hstep, -⟩ := hsafe w.shared hnow hgood.inv ((hok r _ ws hn).1 l rfl)
    exact .inr ⟨r, l, _, upcoming_of_running hn rfl, hstep⟩
  | _ =>
    simp only [runHead, some.injEq] at hhead
    subst hhead
    exact .inl rfl

end Beside

/-! ## Sessions that are not told apart -/

section Interleaved

/-- The outline, for requests that carry a number that it does not look at. -/
def numbered (O : Outline σ ε ω lbl ρ) : Outline σ ε ω lbl (ℕ × ρ) where
  Inv := O.Inv
  Rely r := O.Rely r.2
  Guar r := O.Guar r.2
  Start r := O.Start r.2
  Cond r := O.Cond r.2
  Apart := O.Apart

variable {O : Outline σ ε ω lbl ρ} {handler : ρ → Prog σ ε ω lbl err α}
  {w w' : World σ ε ω lbl err ρ α} {n : ℕ}

theorem Step.of_numbered {r : ℕ × ρ} {l : lbl} {ws : List ω} {s s' : Shared σ ε}
    (h : O.numbered.Step r l ws s s') : O.Step r.2 l ws s s' :=
  ⟨h.inv, h.guar⟩

theorem wp_numbered {r : ℕ × ρ} {p : Prog σ ε ω lbl err α}
    {Q : α → List ω → Shared σ ε → Prop} {ws : List ω} {s : Shared σ ε} (h : O.wp r.2 p Q ws s) :
    O.numbered.wp r p Q ws s := by
  induction p generalizing ws s with
  | ret a => exact h
  | raise e => exact trivial
  | stmt l f x k ih =>
    intro s' hrely hinv hcond
    obtain ⟨hstep, hk⟩ := h s' hrely hinv hcond
    exact ⟨⟨hstep.inv, hstep.guar⟩, ih _ _ hk⟩
  | commit l x k ih =>
    intro s' hrely hinv hcond
    obtain ⟨hstep, hk⟩ := h s' hrely hinv hcond
    exact ⟨⟨hstep.inv, hstep.guar⟩, ih hk⟩
  | rollback k ih => exact fun s' hrely hinv => ih (h s' hrely hinv)

theorem Coherent.numbered (hO : O.Coherent) : O.numbered.CoherentBeside fun _ _ => True where
  rely_refl r := hO.rely_refl r.2
  rely_trans r := hO.rely_trans r.2
  rely_of_guar := by
    intro n r l ws n' r' l' ws' s s' _ _ hinv hstep
    exact hO.rely_of_guar r l ws r' l' ws' s s' hinv hstep.of_numbered

variable [DecidableEq κ]

omit [DecidableEq κ] [Store σ ω κ] in
theorem Allows.numbered {a : Action ρ} (h : O.Allows w a) :
    O.numbered.AllowsBeside (fun _ _ => True) w a := by
  cases a with
  | start r => exact ⟨h, fun _ _ _ _ _ => ⟨trivial, trivial⟩⟩
  | step n => exact h
  | kill n => exact trivial

private theorem good_of_run (hO : O.Coherent)
    (hhandler : ∀ r s, O.Inv s → O.Start r s → O.Safe r (handler r) [] s)
    {db : σ} {ext : ε} (hinit : O.Inv ⟨db, ext, []⟩)
    (hrun : Run handler O.Allows (.fresh db ext) w) :
    O.numbered.GoodBeside (fun _ _ => True) (fun _ _ _ _ => True) w :=
  (goodBeside_fresh hinit).of_run hO.numbered (fun _ _ _ _ _ _ _ _ => trivial)
    (fun _ r s hinv hstart => wp_numbered (hhandler r s hinv hstart))
    (hrun.mono fun _ _ => Allows.numbered)

/-- **Adequacy.**  The invariant holds after every run that keeps the scheduling conditions. -/
theorem inv_of_run (hO : O.Coherent)
    (hhandler : ∀ r s, O.Inv s → O.Start r s → O.Safe r (handler r) [] s)
    {db : σ} {ext : ε} (hinit : O.Inv ⟨db, ext, []⟩)
    (hrun : Run handler O.Allows (.fresh db ext) w) : O.Inv w.shared :=
  (good_of_run hO hhandler hinit hrun).inv

/-- **Adequacy, step by step.**  Every step of such a run that changes the shared state is within
the guarantee of the request that makes it. -/
theorem step_of_run (hO : O.Coherent)
    (hhandler : ∀ r s, O.Inv s → O.Start r s → O.Safe r (handler r) [] s)
    {db : σ} {ext : ε} (hinit : O.Inv ⟨db, ext, []⟩)
    (hrun : Run handler O.Allows (.fresh db ext) w) (hok : O.Allows w (.step n))
    (hnext : w.next handler (.step n) = some w') : w'.shared = w.shared ∨
      ∃ r l ws, w.upcoming n = some (r, l) ∧ O.Inv w.shared ∧ O.Step r l ws w.shared w'.shared := by
  have hgood := good_of_run hO hhandler hinit hrun
  refine (hgood.step hO.numbered hok.numbered hnext).imp id ?_
  rintro ⟨r, l, ws, hup, hstep⟩
  exact ⟨r, l, ws, hup, hgood.inv, hstep.of_numbered⟩

end Interleaved

end Outline

end ReadCommitted
