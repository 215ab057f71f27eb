import RcqServer.Holders.Accounts
import RcqServer.Leases

/-!
# The tokens of a former holder

A number that is given up goes to somebody else, and a token for it never expires on a phone.  What
shuts the former holder out is that the epoch of the number goes up in the same transaction in which
its row goes.  Burns, moves and the guest sweep see to that.  The dead-account sweep deletes the row
and leaves the epoch, so a token for such a number is good for whoever gets it next.
-/

namespace RcqServer.Holders

open ReadCommitted Prog Outline Option World List
open Sessions (Token issueToken issueDeviceToken)

variable {e e' : Ext} {uin target u : Uin} {row : User} {l : Label} {α β : Type}

/-! ## Numbers and their tenants -/

/-- The numbers as they are let to the keys of the accounts. -/
def Ext.leases (e : Ext) : Leases.Register Uin KeyText := ⟨e.keyOf, e.epochOf⟩

def Issue.pass (i : Issue) : Leases.Pass Uin KeyText := ⟨i.token.uin, i.token.epoch, i.holder⟩

def Ext.passes (e : Ext) : Set (Leases.Pass Uin KeyText) := {p | ∃ i ∈ e.issued, i.pass = p}

/-- A token that is current was signed while the present holder had the number, or nobody. -/
def Ext.Sound (e : Ext) : Prop := Leases.Sound e.leases e.passes

/-- No token for the number is current. -/
def Ext.Unused (e : Ext) (uin : Uin) : Prop :=
  ∀ i ∈ e.issued, i.token.uin = uin → i.token.epoch ≠ e.epochOf uin

theorem Ext.Unused.leases (h : e.Unused uin) : e.leases.Unused e.passes uin := by
  rintro p ⟨i, hi, rfl⟩ hnumber hadmits
  have hcurrent : i.token.epoch = e.epochOf i.token.uin := hadmits
  exact h i hi hnumber (hcurrent.trans (congrArg e.epochOf hnumber))

/-- What a transaction may do: nothing is signed, and numbers change hands in order. -/
structure Turns (e e' : Ext) : Prop where
  issued : e'.issued = e.issued
  moves : Leases.Moves e.passes e.leases e'.leases

theorem Turns.refl (e : Ext) : Turns e e := ⟨rfl, .refl _ _⟩

theorem Turns.passes (h : Turns e e') : e'.passes = e.passes := by
  rw [Ext.passes, h.issued, Ext.passes]

theorem Turns.trans {e'' : Ext} (h : Turns e e') (h' : Turns e' e'') : Turns e e'' :=
  ⟨h'.issued.trans h.issued, h.moves.trans (h.passes ▸ h'.moves)⟩

theorem Turns.sound (h : Turns e e') (hsound : e.Sound) : e'.Sound := by
  rw [Ext.Sound, h.passes]
  exact Leases.Sound.move hsound h.moves

theorem Turns.mono (h : Turns e e') (u : Uin) : e.epochOf u ≤ e'.epochOf u := h.moves.mono u

/-! ## Rows and epochs -/

theorem keyOf_setUser (e : Ext) (uin u : Uin) (row : Option User) :
    (e.setUser uin row).keyOf u = if u = uin then row.map User.signingKey else e.keyOf u := by
  unfold Ext.keyOf Ext.setUser
  rw [Table.get_set]
  split
  · rfl
  · rfl

theorem epochOf_bump (e : Ext) (uin u : Uin) :
    (e.bump uin).epochOf u = if u = uin then e.epochOf uin + 1 else e.epochOf u := by
  unfold Ext.epochOf Ext.bump
  rw [Table.get_set]
  split
  · rfl
  · rfl

/-- A row changes and the epoch stays: the key is the same, or nobody had the number, or no token for
it is current. -/
theorem turns_setUser {row : Option User}
    (h : row.map User.signingKey = e.keyOf uin ∨ e.keyOf uin = none ∨ e.Unused uin) :
    Turns e (e.setUser uin row) where
  issued := rfl
  moves := by
    refine ⟨fun _ => le_rfl, fun u _ => ?_⟩
    by_cases hu : u = uin
    · subst hu
      refine h.imp (fun hkey => ?_) (Or.imp_right Ext.Unused.leases)
      exact (keyOf_setUser e u u row).trans ((if_pos rfl).trans hkey)
    · exact .inl ((keyOf_setUser e uin u row).trans (if_neg hu))

/-- A row changes and the epoch goes up. -/
theorem turns_bump (e : Ext) (uin : Uin) (row : Option User) :
    Turns e ((e.bump uin).setUser uin row) where
  issued := rfl
  moves := by
    have hepoch : ∀ u, ((e.bump uin).setUser uin row).epochOf u =
        if u = uin then e.epochOf uin + 1 else e.epochOf u := epochOf_bump e uin
    refine ⟨fun u => ?_, fun u hsame => ?_⟩
    · refine le_of_le_of_eq ?_ (hepoch u).symm
      split
      · subst u
        exact Nat.le_succ _
      · exact le_rfl
    · have hu : u ≠ uin := by
        rintro rfl
        have hup := (hepoch u).symm.trans hsame
        rw [if_pos rfl] at hup
        exact Nat.succ_ne_self _ hup
      exact .inl ((keyOf_setUser _ uin u row).trans (if_neg hu))

/-! ## The transactions -/

/-- What a transaction leaves when it succeeds. -/
def InOrder (tx : Ext → Except HttpError (α × Ext)) : Prop :=
  ∀ e a e', tx e = .ok (a, e') → Turns e e'

theorem insertUser_inOrder (uin : Uin) (row : Ext → User) :
    InOrder fun e => e.insertUser uin (row e) := by
  intro e _ e' h
  dsimp only [Ext.insertUser] at h
  split at h
  · cases h
  · rename_i hfree
    cases h
    have hnone : e.users.get uin = none := not_isSome_iff_eq_none.mp hfree
    exact turns_setUser (.inr (.inl (congrArg (Option.map User.signingKey) hnone)))

/-- No update of a row changes its key. -/
theorem updateUser_inOrder (uin : Uin) (p : User → Bool) (f : Ext → User → User)
    (hkey : ∀ e row, (f e row).signingKey = row.signingKey) :
    InOrder fun e => e.updateUser uin p (f e) := by
  intro e _ e' h
  dsimp only [Ext.updateUser] at h
  split at h
  · cases h
    exact .refl _
  · rename_i row hrow
    cases h
    have hget : e.users.get uin = some row := (filter_eq_some_iff.mp hrow).1
    refine turns_setUser (.inl ?_)
    rw [Ext.keyOf, hget, map_some, map_some, hkey]

theorem convertGuest_inOrder (uin : Uin) (resident : Bool) :
    InOrder fun e => e.convertGuest uin resident := by
  intro e _ e' h
  dsimp only [Ext.convertGuest] at h
  split at h
  · cases h
  · cases h
    exact turns_bump e uin _

theorem purgeAccount_inOrder (uin : Uin) : InOrder fun e => e.purgeAccount uin := by
  intro e _ e' h
  dsimp only [Ext.purgeAccount] at h
  split at h
  · cases h
    exact .refl _
  · cases h
    exact turns_bump e uin none

theorem purgeIfStillEligible_inOrder (limits : Limits) (uin : Uin) (kind : Kind) :
    InOrder fun e => e.purgeIfStillEligible limits uin kind := by
  intro e a e' h
  dsimp only [Ext.purgeIfStillEligible] at h
  split at h
  · exact purgeAccount_inOrder uin e a e' h
  · cases h
    exact .refl _

theorem performMigration_inOrder (uin target : Uin) (refusal : Option HttpError) :
    InOrder fun e => e.performMigration uin target refusal := by
  intro e _ e' h
  dsimp only [Ext.performMigration] at h
  split at h
  · cases h
  · cases h
  · split at h
    · cases h
    · rename_i hfree
      cases h
      have hnone : e.users.get target = none := not_isSome_iff_eq_none.mp hfree
      -- the new number had nobody, and the old one gets a new epoch
      have hkey : e.keyOf target = none := congrArg (Option.map User.signingKey) hnone
      exact Turns.trans (turns_setUser (.inr (.inl hkey))) (turns_bump _ uin none)

theorem deleteUsers_turns {uins : List Uin} (h : ∀ uin ∈ uins, e.Unused uin) :
    Turns e (e.deleteUsers uins) := by
  induction uins generalizing e with
  | nil => exact .refl e
  | cons uin rest ih =>
    have hfirst : Turns e (e.setUser uin none) :=
      turns_setUser (.inr (.inr (h uin mem_cons_self)))
    exact hfirst.trans (ih fun u hu => h u (mem_cons_of_mem _ hu))

/-! ## The outline -/

/-- A statement that deletes dead accounts deletes none for whose number a token is current. -/
def Label.SparesTokens : Label → Ext → Prop
  | .deleteDead uins, e => ∀ uin ∈ uins, e.Unused uin
  | _, _ => True

/-- Requests count on nothing but that epochs go up. -/
def outline : Outline Unit Ext Empty Label Request where
  Inv s := s.ext.Sound
  Rely _ _ _ s s' := ∀ u, s.ext.epochOf u ≤ s'.ext.epochOf u
  Guar _ _ _ s s' := ∀ u, s.ext.epochOf u ≤ s'.ext.epochOf u
  Start _ _ := True
  Cond _ l s := l.SparesTokens s.ext
  Apart _ _ _ _ := True

theorem coherent : outline.Coherent where
  rely_refl _ _ _ _ _ := le_rfl
  rely_trans _ _ _ _ _ _ h h' u := (h u).trans (h' u)
  guar_refl _ _ _ _ _ := le_rfl
  rely_of_guar _ _ _ _ _ _ _ _ _ hstep _ _ := hstep.guar

/-- The program meets the outline wherever it starts. -/
def Safe (p : Handler α) : Prop := ∀ r ws s, outline.Safe r p ws s

theorem Safe.bind {p : Handler α} {f : α → Handler β} (hp : Safe p) (hf : ∀ a, Safe (f a)) :
    Safe (p.bind f) :=
  fun r ws s => wp_seq (hp r ws s) fun a ws s _ => hf a r ws s

theorem safe_ret {a : α} : Safe (.ret a : Handler α) := fun _ _ _ => trivial

theorem safe_raise {err : HttpError} : Safe (.raise err : Handler α) := fun _ _ _ => trivial

theorem safe_read {l : Label} {q : Unit → Ext → α} : Safe (.read l q : Handler α) :=
  fun _ _ _ => wp_read coherent fun _ _ _ _ => trivial

theorem safe_raiseIf {c : Prop} [Decidable c] {err : HttpError} :
    Safe (.raiseIf c err : Handler Unit) :=
  fun _ _ _ => wp_raiseIf fun _ => trivial

theorem safe_onlyIf {c : Prop} [Decidable c] {p : Handler Unit} (hp : Safe p) :
    Safe (.onlyIf c p) := by
  unfold onlyIf
  split
  · exact hp
  · exact safe_ret

theorem safe_refuseAs (refusal : Option HttpError) : Safe (refuseAs refusal) := by
  cases refusal with
  | none => exact safe_ret
  | some err => exact safe_raise

theorem safe_ofExcept (res : Except HttpError α) : Safe (.ofExcept res : Handler α) := by
  cases res with
  | ok a => exact safe_ret
  | error err => exact safe_raise

/-- A statement whose effect keeps the order, where it may run. -/
theorem safe_stmt {x : Ext → Ext} {k : Unit → Ext → Handler α}
    (hx : ∀ e, l.SparesTokens e → Turns e (x e)) (hk : ∀ v e, Safe (k v e)) :
    Safe (.stmt l (fun _ _ => []) (fun _ e => x e) k) := by
  intro r ws s s' _ hinv hcond
  have hturns : Turns s'.ext (x s'.ext) := hx s'.ext hcond
  exact ⟨⟨hturns.sound hinv, hturns.mono⟩, hk _ _ r _ _⟩

theorem safe_transaction_of {tx : Ext → Except HttpError (α × Ext)}
    (htx : ∀ e a e', l.SparesTokens e → tx e = .ok (a, e') → Turns e e') :
    Safe (transaction l tx) := by
  refine safe_stmt (fun e hspares => ?_) fun _ e => safe_ofExcept _
  cases hres : tx e with
  | error err => exact .refl e
  | ok out => exact htx e out.1 out.2 hspares hres

theorem safe_transaction {tx : Ext → Except HttpError (α × Ext)} (htx : InOrder tx) :
    Safe (transaction l tx) :=
  safe_transaction_of fun e a e' _ h => htx e a e' h

/-! ## Tokens -/

/-- A token of the present or an earlier epoch is signed. -/
theorem sound_issue (h : e.Sound) {token : Token} (hepoch : token.epoch ≤ e.epochOf token.uin) :
    (e.issue token).Sound := by
  have hpasses : (e.issue token).passes =
      insert (Issue.pass ⟨token, e.keyOf token.uin⟩) e.passes := by
    ext p
    simp only [Ext.passes, Ext.issue, exists_mem_cons_iff, Set.mem_ofPred_eq,
      Set.mem_insert_iff]
    exact or_congr_left eq_comm
  rw [Ext.Sound, hpasses]
  exact Leases.Sound.give h hepoch rfl

theorem safe_mint (uin : Uin) (make : Time → ℕ → Token)
    (hmake : ∀ now epoch, (make now epoch).uin = uin ∧ (make now epoch).epoch = epoch) :
    Safe (mint uin make) := by
  intro r ws s
  have hread : outline.wp r (uinEpoch uin) (fun epoch _ s => epoch ≤ s.ext.epochOf uin) ws s :=
    wp_read coherent fun _ _ _ _ => le_rfl
  refine wp_seq hread fun epoch ws s hle => ?_
  intro s' hrely hinv _
  obtain ⟨huin, hepoch⟩ := hmake s'.ext.now epoch
  refine ⟨⟨sound_issue hinv ?_, fun _ => le_rfl⟩, trivial⟩
  rw [huin, hepoch]
  exact hle.trans (hrely uin)

theorem safe_mintToken (uin : Uin) (device : Option DeviceId) : Safe (mintToken uin device) :=
  safe_mint uin _ fun _ _ => ⟨rfl, rfl⟩

theorem safe_authorizeSession (token : Token) (check : Check) :
    Safe (authorizeSession token check) := by
  refine Safe.bind safe_read fun ok => Safe.bind safe_raiseIf fun _ => ?_
  refine Safe.bind safe_raiseIf fun _ => Safe.bind safe_read fun epoch => ?_
  exact Safe.bind safe_raiseIf fun _ => Safe.bind safe_raiseIf fun _ => safe_ret

/-- Somebody with a token, and what follows. -/
theorem safe_authorized {token : Token} {check : Check} {f : Uin → Handler α}
    (hf : ∀ uin, Safe (f uin)) : Safe ((authorizeSession token check).bind f) :=
  Safe.bind (safe_authorizeSession token check) hf

/-! ## The requests -/

theorem register_safe (body : RegisterIn) : Safe (register body) := by
  have htaken : Safe (refuseTakenKey body) := by
    unfold refuseTakenKey
    split
    · exact safe_ret
    · exact Safe.bind safe_read fun _ => safe_raiseIf
  have hguest : Safe (provenGuest body) := by
    unfold provenGuest
    split
    · exact safe_read
    · exact safe_ret
  refine Safe.bind htaken fun _ => Safe.bind (safe_refuseAs _) fun _ => ?_
  refine Safe.bind hguest fun guest => ?_
  cases guest with
  | some found =>
    refine Safe.bind (safe_refuseAs _) fun _ => ?_
    exact Safe.bind (safe_transaction (convertGuest_inOrder found.1 _)) fun _ =>
      safe_mintToken _ _
  | none =>
    refine Safe.bind (safe_transaction (insertUser_inOrder body.uin _)) fun _ => ?_
    exact safe_mintToken _ _

theorem claimSeat_safe (uin : Uin) : Safe (claimSeat uin) :=
  safe_transaction (updateUser_inOrder uin _ _ fun _ _ => rfl)

theorem claimSeat_onlyIf_safe (c : Prop) [Decidable c] (uin : Uin) :
    Safe (.onlyIf c ((claimSeat uin).bind fun _ => .ret ()) : Handler Unit) :=
  safe_onlyIf (Safe.bind (claimSeat_safe uin) fun _ => safe_ret)

theorem guestExistingRow_safe (body : GuestIn) (uin : Uin) (row : User) :
    Safe (guestExistingRow body uin row) := by
  refine Safe.bind safe_raiseIf fun _ => ?_
  exact Safe.bind (claimSeat_onlyIf_safe _ uin) fun _ => safe_mintToken _ _

theorem guestJoin_safe (body : GuestIn) : Safe (guestJoin body) := by
  refine Safe.bind (safe_refuseAs _) fun _ => Safe.bind safe_read fun existing => ?_
  cases existing with
  | some found => exact guestExistingRow_safe body found.1 found.2
  | none =>
    refine Safe.bind (safe_refuseAs _) fun _ => Safe.bind safe_read fun existing => ?_
    cases existing with
    | some found => exact guestExistingRow_safe body found.1 found.2
    | none =>
      refine Safe.bind (safe_transaction (insertUser_inOrder body.uin _)) fun _ => ?_
      exact safe_mintToken _ _

theorem addGuest_safe (bearer : Token) (check : Check) (body : GuestIn) :
    Safe (addGuest bearer check body) := by
  refine safe_authorized fun _ => Safe.bind (safe_refuseAs _) fun _ => ?_
  refine Safe.bind safe_read fun existing => safe_onlyIf ?_
  refine Safe.bind (safe_refuseAs _) fun _ => Safe.bind safe_read fun existing => ?_
  exact safe_onlyIf (safe_transaction (insertUser_inOrder body.uin _))

theorem guestSettle_safe (bearer : Token) (check : Check) (gate : Option HttpError)
    (resident : Bool) : Safe (guestSettle bearer check gate resident) := by
  refine safe_authorized fun uin => Safe.bind safe_read fun user => ?_
  cases user with
  | none => exact safe_raise
  | some row =>
    refine Safe.bind safe_raiseIf fun _ => Safe.bind (safe_refuseAs _) fun _ => ?_
    refine Safe.bind (safe_transaction (updateUser_inOrder uin _ _ fun _ _ => rfl)) fun _ => ?_
    exact safe_raiseIf

theorem proofToken_safe (uin : Uin) (device : Option DeviceId) (revoked : Bool) :
    Safe (proofToken uin device revoked) := by
  refine Safe.bind safe_raiseIf fun _ => Safe.bind ?_ fun _ => safe_mintToken _ _
  exact Safe.bind safe_read fun _ => claimSeat_onlyIf_safe _ uin

theorem recover_safe (signingKey : KeyText) (device : Option DeviceId) (revoked : Bool) :
    Safe (recover signingKey device revoked) := by
  refine Safe.bind safe_read fun row => ?_
  cases row with
  | none => exact safe_raise
  | some found => exact proofToken_safe _ _ _

theorem refresh_safe (uin : Uin) (signingKey : KeyText) (device : Option DeviceId)
    (revoked : Bool) : Safe (refresh uin signingKey device revoked) := by
  refine Safe.bind safe_read fun key => ?_
  by_cases hkey : key = some signingKey
  · rw [if_pos hkey]
    exact proofToken_safe _ _ _
  · rw [if_neg hkey]
    refine Safe.bind safe_read fun there => Safe.bind safe_raiseIf fun _ => ?_
    refine Safe.bind safe_read fun candidates => ?_
    match candidates with
    | [] => exact safe_raise
    | [found] => exact proofToken_safe _ _ _
    | _ :: _ :: _ => exact safe_raise

theorem migrate_safe (bearer : Token) (check : Check) (target : Uin)
    (refusal : Option HttpError) : Safe (migrate bearer check target refusal) := by
  refine safe_authorized fun uin => ?_
  exact Safe.bind (safe_transaction (performMigration_inOrder uin target refusal)) fun _ =>
    safe_mintToken _ _

theorem deleteAccount_safe (bearer : Token) (check : Check) :
    Safe (deleteAccount bearer check) := by
  refine safe_authorized fun uin => ?_
  exact Safe.bind (safe_transaction (purgeAccount_inOrder uin)) fun _ => safe_raiseIf

theorem purgeGuests_safe (limits : Limits) (candidates : List (Uin × Kind)) :
    Safe (purgeGuests limits candidates) := by
  induction candidates with
  | nil => exact safe_ret
  | cons c rest ih =>
    exact Safe.bind (safe_transaction (purgeIfStillEligible_inOrder limits c.1 c.2)) fun _ => ih

theorem guestSweep_safe (limits : Limits) : Safe (guestSweep limits) := by
  refine Safe.bind ?_ fun candidates => purgeGuests_safe limits candidates
  refine Safe.bind safe_read fun _ => Safe.bind safe_read fun _ => ?_
  exact Safe.bind safe_read fun _ => Safe.bind safe_read fun _ => safe_ret

theorem deleteBatch_safe (uins : List Uin) :
    Safe (transaction (.deleteDead uins) fun e => .ok ((), e.deleteUsers uins)) := by
  refine safe_transaction_of fun e _ e' hspares h => ?_
  cases h
  exact deleteUsers_turns hspares

theorem deleteDead_safe (uins deleted : List Uin) : Safe (deleteDead uins deleted) := by
  induction uins generalizing deleted with
  | nil => exact deleteBatch_safe deleted
  | cons uin rest ih =>
    unfold deleteDead
    split
    · exact Safe.bind (deleteBatch_safe _) fun _ => ih []
    · exact ih _

theorem handler_safe (r : Request) : Safe (handler r) := by
  cases r with
  | register body => exact Safe.bind (register_safe body) fun _ => safe_ret
  | guestJoin body => exact Safe.bind (guestJoin_safe body) fun _ => safe_ret
  | addGuest bearer check body =>
    exact Safe.bind (addGuest_safe bearer check body) fun _ => safe_ret
  | guestSettle bearer check gate resident =>
    exact Safe.bind (guestSettle_safe bearer check gate resident) fun _ => safe_ret
  | recover signingKey device revoked =>
    exact Safe.bind (recover_safe signingKey device revoked) fun _ => safe_ret
  | refresh uin signingKey device revoked =>
    exact Safe.bind (refresh_safe uin signingKey device revoked) fun _ => safe_ret
  | session bearer check =>
    exact Safe.bind (safe_authorized fun _ => safe_mintToken _ _) fun _ => safe_ret
  | claimDevice bearer check device refusal =>
    refine Safe.bind (safe_authorized fun _ => ?_) fun _ => safe_ret
    exact Safe.bind (safe_refuseAs _) fun _ => safe_mintToken _ _
  | linkDevice bearer check device refusal =>
    refine Safe.bind (safe_authorized fun uin => ?_) fun _ => safe_ret
    exact Safe.bind (safe_refuseAs _) fun _ => safe_mint uin _ fun _ _ => ⟨rfl, rfl⟩
  | migrate bearer check target refusal =>
    exact Safe.bind (migrate_safe bearer check target refusal) fun _ => safe_ret
  | deleteAccount bearer check =>
    exact Safe.bind (deleteAccount_safe bearer check) fun _ => safe_ret
  | guestSweep limits => exact Safe.bind (guestSweep_safe limits) fun _ => safe_ret
  | deadAccountSweep bare =>
    refine Safe.bind ?_ fun _ => safe_ret
    exact Safe.bind safe_read fun _ => safe_onlyIf (deleteDead_safe _ _)
  | seen uin =>
    refine Safe.bind (safe_transaction ?_) fun _ => safe_ret
    exact updateUser_inOrder uin _ _ fun _ _ => rfl
  | authorize token check =>
    exact Safe.bind (safe_authorizeSession token check) fun _ => safe_ret
  | tick seconds =>
    exact Safe.bind (safe_stmt (fun _ _ => ⟨rfl, .refl _ _⟩) fun _ _ => safe_ret) fun _ =>
      safe_ret

/-! ## The result -/

/-- No dead-account sweep of the run deletes an account for whose number a token is current. -/
def SparesTokens (w : World) : Action Request → Prop
  | .step n => ∀ x ∈ w.upcoming n, x.2.SparesTokens w.shared.ext
  | _ => True

/-- A token of another epoch is refused. -/
theorem authorizeSession_stale {token : Token} {s : State}
    (hstale : token.epoch ≠ s.ext.epochOf token.uin) (check : Check) :
    ∃ err, ((authorizeSession token check).exec s).1 = .error err := by
  have hwlp : (authorizeSession token check).wlp (fun _ => True) (fun _ _ _ => False) [] s := by
    refine wlp_read_bind (wlp_raiseIf_bind (fun _ => trivial) fun _ => ?_)
    refine wlp_raiseIf_bind (fun _ => trivial) fun _ => wlp_read_bind ?_
    exact wlp_raiseIf_bind (fun _ => trivial) fun hcurrent => absurd hstale hcurrent
  cases hres : ((authorizeSession token check).exec s).1 with
  | error err => exact ⟨err, rfl⟩
  | ok uin =>
    obtain ⟨_, hfalse⟩ := (exec_of_wlp hwlp).1 uin hres
    exact hfalse.elim

/-- **A former holder stays out.**  In every run of registrations, guests, proofs of keys, renewals,
moves, burns and sweeps, however their statements interleave, in which the dead-account sweep spares
the numbers for which a token is current: a token that was signed while one key had its number is
refused whenever another key has it. -/
theorem former_holder_stays_out {now : Time} {w : World}
    (hrun : Run handler SparesTokens (initial now) w) {i : Issue}
    (hi : i ∈ w.shared.ext.issued) {key : KeyText} (hholder : i.holder = some key) {row : User}
    (hrow : w.shared.ext.users.get i.token.uin = some row) (hother : row.signingKey ≠ key)
    (check : Check) : ∃ err, ((authorizeSession i.token check).exec w.shared).1 = .error err := by
  have hinit : outline.Inv (initial now).shared := by
    refine ⟨?_, ?_⟩
    · rintro p ⟨i, hi, -⟩
      exact absurd hi not_mem_nil
    · rintro p ⟨i, hi, -⟩
      exact absurd hi not_mem_nil
  have hallows : ∀ (w : World) a, SparesTokens w a → outline.Allows w a :=
    allows_of_upcoming (fun _ _ => trivial) (fun _ _ _ _ => trivial) fun _ _ h => h
  have hsound : w.shared.ext.Sound :=
    inv_of_run coherent (fun r s _ _ => handler_safe r r [] s) hinit (Run.mono hallows hrun)
  have hkey : w.shared.ext.keyOf i.token.uin = some row.signingKey :=
    congrArg (Option.map User.signingKey) hrow
  refine authorizeSession_stale (fun hcurrent => ?_) check
  exact Leases.Sound.not_admits hsound ⟨i, hi, rfl⟩ hholder hkey hother hcurrent

section Example

instance (e : Ext) (uin : Uin) : Decidable (e.Unused uin) :=
  inferInstanceAs
    (Decidable (∀ i ∈ e.issued, i.token.uin = uin → i.token.epoch ≠ e.epochOf uin))

instance (e : Ext) (l : Label) : Decidable (l.SparesTokens e) := by
  rcases l with _ | _ <;> unfold Label.SparesTokens <;> infer_instance

instance : DecidableRel SparesTokens := by
  rintro w (_ | _) <;> unfold SparesTokens <;> infer_instance

/-- Somebody comes in through the open door and gets the number 5. -/
def walkIn (key : KeyText) : Request := .register ⟨key, false, false, 5, none, none, none⟩

def unhindered : Check := ⟨false, false⟩

/-- The token of whoever comes in first. -/
abbrev firstToken : Token := issueToken 0 5 0 none

/-- One person burns the account, and another one gets the number. -/
def burnedAndReused : List (Action Request) :=
  .start (walkIn ['a']) :: steps 0 6 ++ .start (Request.deleteAccount firstToken unhindered) :: steps 1 6 ++
    .start (walkIn ['b']) :: steps 2 6

theorem former_holder_stays_out_burned : (⟨firstToken, some ['a']⟩ : Issue) ∈
        ((initial 0).play handler burnedAndReused).shared.ext.issued ∧
      ((initial 0).play handler burnedAndReused).shared.ext.keyOf 5 = some ['b'] ∧
      ∃ err, ((authorizeSession firstToken unhindered).exec
        ((initial 0).play handler burnedAndReused).shared).1 = .error err := by
  have hrun : Run handler SparesTokens (initial 0)
      ((initial 0).play handler burnedAndReused) :=
    .of_play burnedAndReused (by decide +kernel)
  have hi : (⟨firstToken, some ['a']⟩ : Issue) ∈
      ((initial 0).play handler burnedAndReused).shared.ext.issued := by decide +kernel
  have hrow : ((initial 0).play handler burnedAndReused).shared.ext.users.get 5 =
      some ⟨['b'], none, none, 0, none, 0, false⟩ := by decide +kernel
  exact ⟨hi, by decide +kernel, former_holder_stays_out hrun hi rfl hrow (by decide) unhindered⟩

/-- Somebody registers and is not seen again; the sweep deletes the account, and another person gets
the number. -/
def sweptAndReused : List (Action Request) :=
  .start (walkIn ['a']) :: steps 0 6 ++ .start (Request.tick (days 31)) :: steps 1 2 ++
    .start (Request.deadAccountSweep fun _ => true) :: steps 2 4 ++ .start (walkIn ['b']) :: steps 3 6 ++
    .start (Request.authorize firstToken unhindered) :: steps 4 4

/-- The token of the first person is a session for the number of the second. -/
theorem swept_holder_comes_back :
    let w := (initial 0).play handler sweptAndReused
    Run handler (fun _ _ => True) (initial 0) w ∧
      (⟨firstToken, some ['a']⟩ : Issue) ∈ w.shared.ext.issued ∧
      w.shared.ext.keyOf 5 = some ['b'] ∧ w.answer? 4 = some (.uin 5) :=
  ⟨.of_play sweptAndReused (by decide +kernel), by decide +kernel⟩

end Example

end RcqServer.Holders
