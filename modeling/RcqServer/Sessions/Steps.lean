import RcqServer.Sessions.Effects

/-!
# Every step is on the list

One walk through the programs of all requests, with what each of them knows at each statement.
-/

namespace RcqServer.Sessions

open ReadCommitted Prog Outline World List

/-! ## The outline -/

/-- Others only let tokens, registrations and time grow; every step is on the list. -/
def outline (cfg : Config) : Outline Db Ext Write Label Request where
  Inv s := Base s.ext
  Rely _ _ _ s s' := Grows s.ext s'.ext
  Guar r l _ s s' := Does cfg r l s.ext s'.ext
  Start _ _ := True
  Cond _ _ _ := True
  Apart _ _ _ _ := True

theorem coherent (cfg : Config) : (outline cfg).Coherent where
  rely_refl _ _ _ s := Grows.refl s.ext
  rely_trans _ _ _ _ _ _ h h' := Grows.trans h h'
  guar_refl _ _ _ s := .quiet (.refl s.ext)
  rely_of_guar _ _ _ _ _ _ _ _ hinv hstep _ _ := Does.grows hstep.guar hinv

/-- A fact that holds from some time on. -/
def Stable (K : Ext → Prop) : Prop := ∀ e e', Grows e e' → K e → K e'

theorem stable_true : Stable fun _ => True := fun _ _ _ _ => trivial

theorem stable_signed (token : Token) : Stable (·.Signed token) := by
  rintro e e' hgrows ⟨i, hi, htoken⟩
  exact ⟨i, hgrows.issued i hi, htoken⟩

theorem stable_birth (u : Uin) (d : DeviceId) (born : Time) :
    Stable fun e => e.births.get (u, d) = some born :=
  fun _ _ hgrows h => hgrows.births (u, d) born h

theorem stable_linked (u : Uin) (d : DeviceId) (born : Time) : Stable (·.Linked u d born) :=
  fun _ _ hgrows h =>
    ⟨hgrows.births _ born h.birth, hgrows.linking _ born h.birth h.complete⟩

theorem stable_bornAt (u : Uin) (target : Target) (born : Option Time) :
    Stable (·.BornAt u target born) := by
  intro e e' hgrows h
  cases target with
  | device d => exact fun b hb => hgrows.births _ b (h b hb)
  | slot createdAt => exact h

theorem Stable.and {K K' : Ext → Prop} (h : Stable K) (h' : Stable K') :
    Stable fun e => K e ∧ K' e :=
  fun e e' hgrows hK => ⟨h e e' hgrows hK.1, h' e e' hgrows hK.2⟩

/-! ## Rules -/

variable {cfg : Config} {verify : Verify} {r : Request} {l : Label} {K : Ext → Prop}
  {ws : List Write} {s : State} {α β : Type}

theorem framed (hK : Stable K) :
    (outline cfg).Framed r (fun _ => True) Quiet fun _ s => K s.ext where
  stable _ _ s s' h hrely _ := hK s.ext s'.ext hrely h
  stmt l _ s _ e h hinv _ hE := by
    have hdoes : Does cfg r l s.ext e := .quiet hE
    exact ⟨⟨hdoes.base hinv, hdoes⟩, hK _ _ (hdoes.grows hinv) h⟩
  commit l _ s e h hinv hE := by
    have hdoes : Does cfg r l s.ext e := .quiet hE
    exact ⟨⟨hdoes.base hinv, hdoes⟩, hK _ _ (hdoes.grows hinv) h⟩
  rollback _ _ h := h

variable {token : Token} {u : Uin} {R : β → List Write → State → Prop} {d : DeviceId}

/-- A part of a request that leaves tokens, registries and denylists alone. -/
theorem wp_quiet (hK : Stable K) {p : Handler α} {f : α → Handler β} (hp : p.Within (fun _ => True) Quiet) (h : K s.ext)
    (hf : ∀ a ws s, K s.ext → (outline cfg).wp r (f a) R ws s) :
    (outline cfg).wp r (p.bind f) R ws s :=
  wp_within_bind (framed hK) hp h hf

theorem wp_quiet_last {p : Handler α} (hp : p.Within (fun _ => True) Quiet) :
    (outline cfg).Safe r p ws s :=
  safe_within (framed stable_true) hp trivial

/-- A statement whose effect is on the list. -/
theorem wp_does (hK : Stable K) {x : Db → Ext → Ext} {k : Db → Ext → Handler α}
    {Q : α → List Write → State → Prop} (h : K s.ext)
    (hdoes : ∀ db e, Base e → K e → Does cfg r l e (x db e))
    (hk : ∀ db e ws s, Base e → K e → s.ext = x db e → K s.ext →
      (outline cfg).wp r (k db e) Q ws s) :
    (outline cfg).wp r (.stmt l (fun _ _ => []) x k) Q ws s := by
  intro s' hrely hinv _
  have hnow : K s'.ext := hK _ _ hrely h
  have hstep := hdoes (s'.view ws) s'.ext hinv hnow
  exact ⟨⟨hstep.base hinv, hstep⟩,
    hk _ s'.ext _ _ hinv hnow rfl (hK _ _ (hstep.grows hinv) hnow)⟩

/-- An effect on the list, at the end of a request. -/
theorem wp_does_last {x : Db → Ext → Ext} (hdoes : ∀ db e, Does cfg r l e (x db e)) :
    (outline cfg).Safe r (effect l x : Handler Unit) ws s :=
  wp_does stable_true trivial (fun db e _ _ => hdoes db e) fun _ _ _ _ _ _ _ _ => trivial

/-- A statement that only looks. -/
theorem wp_looks (hK : Stable K) {q : Db → Ext → α} {f : α → Handler β} (h : K s.ext)
    (hf : ∀ db ws s, Base s.ext → K s.ext → (outline cfg).wp r (f (q db s.ext)) R ws s) :
    (outline cfg).wp r ((read l q).bind f) R ws s :=
  wp_bind.mpr <| wp_read (coherent cfg) fun s' hrely hinv _ =>
    hf _ _ s' hinv (hK _ _ hrely h)

/-! ## Parts that leave tokens, registries and denylists alone -/

section Quiet

variable {W : Write → Prop} {E : Ext → Ext → Prop}

theorem refuseRevokedDevice_within (hE : ∀ e, E e e) (u : Uin) (d : Option DeviceId) :
    (refuseRevokedDevice u d).Within W E := by
  cases d with
  | none => exact trivial
  | some d => exact (Within.read hE).bind fun _ => Within.raiseIf

theorem isLinkedDevice_within (hE : ∀ e, E e e) (u : Uin) (d : Option DeviceId) :
    (isLinkedDevice u d).Within W E := by
  cases d with
  | none => exact trivial
  | some d => exact Within.read hE

theorem loadEpochs_within (hE : ∀ e, E e e) (hreplace : ∀ e epochs loaded, E e { e with
      epochs := epochs, epochsLoaded := loaded, epochsBuilt := true }) :
    loadEpochs.Within W E :=
  (Within.read hE).bind fun _ => Within.effect fun _ e => hreplace e _ _

theorem ensureEpochs_within (hE : ∀ e, E e e) (hload : loadEpochs.Within W E) :
    ensureEpochs.Within W E :=
  (Within.read hE).bind fun _ => Within.onlyIf hload

theorem uinEpoch_within (hE : ∀ e, E e e) (hload : loadEpochs.Within W E) (u : Uin) :
    (uinEpoch u).Within W E :=
  (ensureEpochs_within hE hload).bind fun _ => Within.read hE

theorem bumpUinEpoch_within (hE : ∀ e, E e e) (hW : ∀ u row, W (.epoch u row))
    (rotation : Option KeyBytes) (u : Uin) : (bumpUinEpoch rotation u).Within W E := by
  refine (Within.read hE).bind fun row => ?_
  split
  · exact Within.write_one hE fun _ _ => hW _ _
  · exact Within.write_one hE fun _ _ => hW _ _

theorem refuseTaken_within (hE : ∀ e, E e e) (c : Change) (taken : List Uin) (old : KeyBytes) :
    (refuseTaken c taken old).Within W E :=
  Within.ite trivial <|
    (Within.read hE).bind fun _ => Within.raiseIf

theorem claimNonce_within (hE : ∀ e, E e e)
    (hclaim : ∀ (e : Ext) nonces, E e { e with nonces := nonces })
    (nonce : NonceKey) (ts : ℤ) : (claimNonce l nonce ts).Within W E := by
  refine fun _ e => ⟨by simp, ?_, trivial⟩
  dsimp only
  split
  · exact hclaim e _
  · exact hE e

theorem judge_within (hE : ∀ e, E e e)
    (hclaim : ∀ (e : Ext) nonces, E e { e with nonces := nonces })
    (env : ReissueEnv) (c : Change) (taken : List Uin) (fields : ProofFields) :
    (judge verify env c taken fields).Within W E := by
  refine Within.ite ?_ ?_
  · split
    · exact trivial
    · refine Within.bind ?_ fun _ => trivial
      refine Within.raiseIf.bind fun _ => Within.raiseIf.bind fun _ =>
        Within.raiseIf.bind fun _ => (Within.read hE).bind fun _ =>
        Within.raiseIf.bind fun _ => Within.raiseIf.bind fun _ =>
        (refuseTaken_within hE _ _ _).bind fun _ =>
        (claimNonce_within hE hclaim _ _).bind fun claim => ?_
      cases claim with
      | none => exact trivial
      | some claim => exact trivial
  · exact Within.raiseIf.bind fun _ => Within.raiseIf.bind fun _ => trivial

theorem retireOld_within (hE : ∀ e, E e e) (hW : ∀ key row, W (.retired key row)) (c : Change)
    (signed : Bool) : (retireOld c signed).Within W E := by
  have hwrite : ∀ {β : Type} (l : Label) (key : KeyBytes) (row : Db → Option Uin)
      (q : Db → Ext → β), (write l (fun db _ => [Write.retired key (row db)]) q :
        Handler β).Within W E := fun l key row q => Within.write_one hE fun _ _ => hW _ _
  unfold retireOld
  split
  · exact trivial
  · refine Within.ite trivial ?_
    refine (Within.read hE).bind fun row => ?_
    split
    · exact hwrite _ _ _ _
    · refine Within.ite (hwrite _ _ _ _) ?_
      exact (Within.read hE).bind fun _ =>
        (Within.onlyIf (hwrite _ _ _ _)).bind fun _ => trivial

theorem bumpIfSigned_within (hE : ∀ e, E e e) (hW : ∀ u row, W (.epoch u row)) (c : Change)
    (signed : Bool) : (bumpIfSigned c signed).Within W E :=
  Within.ite ((bumpUinEpoch_within hE hW _ _).bind fun _ => trivial)
    trivial

theorem failRotation_within (hclaim : ∀ (e : Ext) nonces, E e { e with nonces := nonces })
    (c : Change) (claim : Option Claim) : (failRotation c claim : Handler α).Within W E := by
  cases claim with
  | none => exact trivial
  | some claim => exact fun _ e => ⟨by simp, hclaim e _, trivial⟩

end Quiet

private theorem quiet_replace (e : Ext) (epochs : Table Uin ℕ)
    (loaded : Option (Expiring.Entry Unit)) :
    Quiet e { e with epochs := epochs, epochsLoaded := loaded, epochsBuilt := true } := by
  constructor <;> rfl

private theorem quiet_claim (e : Ext) (nonces : Table NonceKey (Expiring.Entry Unit)) :
    Quiet e { e with nonces := nonces } := by
  constructor <;> rfl

theorem loadEpochs_quiet : loadEpochs.Within (fun _ => True) Quiet :=
  loadEpochs_within Quiet.refl quiet_replace

theorem uinEpoch_quiet (u : Uin) : (uinEpoch u).Within (fun _ => True) Quiet :=
  uinEpoch_within Quiet.refl loadEpochs_quiet u

theorem checkEpoch_quiet (token : Token) : (checkEpoch token).Within (fun _ => True) Quiet := by
  refine (ensureEpochs_within Quiet.refl loadEpochs_quiet).bind fun _ => ?_
  refine Within.bind (fun _ e => ⟨by simp, ?_, trivial⟩) fun _ => Within.raiseIf
  dsimp only
  split
  · constructor <;> rfl
  · exact Quiet.refl e

theorem background_quiet : background.Within (fun _ => True) Quiet := by
  refine Within.bind (fun _ e => ⟨by simp, ?_, trivial⟩) fun _ => Within.onlyIf ?_
  · dsimp only
    split
    · constructor <;> rfl
    · exact Quiet.refl e
  · refine loadEpochs_quiet.bind fun _ => Within.effect fun _ e => ?_
    constructor <;> rfl

theorem cacheUinEpoch_quiet (rotation : Option KeyBytes) (u : Uin) (epoch : ℕ) :
    (cacheUinEpoch rotation u epoch).Within (fun _ => True) Quiet := by
  refine Within.effect fun _ e => ?_
  constructor <;> rfl

theorem burn_quiet (u : Uin) : (burn u).Within (fun _ => True) Quiet := by
  refine (bumpUinEpoch_within Quiet.refl (fun _ _ => trivial) _ _).bind fun epoch => ?_
  split
  · exact trivial
  · exact ⟨fun e => Quiet.refl e, cacheUinEpoch_quiet _ _ _⟩

/-! ## Checking and minting -/

/-- What follows a check of the token knows that the token is signed. -/
theorem wp_authorizeSession (hK : Stable K) {f : Uin → Handler β} (h : K s.ext)
    (hf : ∀ ws s, K s.ext ∧ s.ext.Signed token → (outline cfg).wp r (f token.uin) R ws s) :
    (outline cfg).wp r ((authorizeSession token).bind f) R ws s := by
  have hKS : Stable fun e => K e ∧ e.Signed token := hK.and (stable_signed token)
  -- the signature is known from the first statement on
  have hdecode : (outline cfg).wp r (decodeSession token)
      (fun _ _ s => K s.ext ∧ s.ext.Signed token) ws s := by
    refine wp_looks hK h fun _ ws s _ h => wp_raiseIf fun hok => ⟨h, ?_⟩
    simp only [Ext.decodes, Bool.not_eq_false, Bool.and_eq_true, any_eq_true,
      decide_eq_true_eq] at hok
    exact hok.1
  have hdevice : ∀ ws s, K s.ext ∧ s.ext.Signed token → (outline cfg).wp r (checkDevice token)
      (fun _ _ s => K s.ext ∧ s.ext.Signed token) ws s := by
    intro ws s h
    unfold checkDevice
    split
    · exact h
    · rename_i d hd
      refine wp_bind.mpr (wp_does hKS h (fun _ e _ hKe => ?_) fun _ _ _ _ _ _ _ h => ?_)
      · split
        · exact .devicePass hKe.2 hd ‹_›
        · exact .quiet (.refl e)
      · exact wp_raiseIf fun _ => h
  refine wp_bind.mpr (wp_seq hdecode fun _ ws s h => wp_seq (hdevice ws s h) ?_)
  intro _ ws s h
  refine wp_quiet hKS (checkEpoch_quiet token) h fun _ ws s h => ?_
  exact wp_looks hKS h fun _ ws s _ h => wp_raiseIf_bind fun _ => hf ws s h

/-- A token that is not a linked device's is minted. -/
theorem wp_mint {bearer : Option Token} {make : Time → Token} (hmake : ∀ now, (make now).linked = false)
    (hbearer : bearer = r.remints) : (outline cfg).Safe r (mint .mint bearer make) ws s :=
  wp_does stable_true trivial (fun _ e _ _ => .mint (hmake e.now) hbearer)
    fun _ _ _ _ _ _ _ _ => trivial

theorem issueToken_linked (now : Time) (u : Uin) (epoch : ℕ) (d : Option DeviceId) :
    (issueToken now u epoch d).linked = false := by
  cases d with
  | none => rfl
  | some d => rfl

/-- The end of every request that hands out a token for its bearer. -/
theorem wp_uinEpoch_mint {bearer : Option Token} {d : Option DeviceId}
    (hbearer : bearer = r.remints) : (outline cfg).Safe r ((uinEpoch u).bind fun epoch =>
      mint .mint bearer fun now => issueToken now u epoch d) ws s :=
  wp_quiet stable_true (uinEpoch_quiet u) trivial fun epoch _ _ _ =>
    wp_mint (fun now => issueToken_linked now u epoch d) hbearer

theorem login_safe {d : Option DeviceId} (hr : r.remints = none) :
    (outline cfg).Safe r (login u d) ws s :=
  wp_quiet stable_true (refuseRevokedDevice_within Quiet.refl u d) trivial fun _ _ _ _ =>
    wp_uinEpoch_mint hr.symm

theorem session_safe (hr : r.remints = some token) : (outline cfg).Safe r (session token) ws s :=
  wp_authorizeSession stable_true trivial fun _ _ _ => wp_uinEpoch_mint hr.symm

theorem claimDevice_safe (hr : r.remints = some token) :
    (outline cfg).Safe r (claimDevice token d) ws s := by
  refine wp_authorizeSession stable_true trivial fun ws s _ => ?_
  refine wp_quiet stable_true (refuseRevokedDevice_within Quiet.refl _ _) trivial
    fun _ ws s _ => ?_
  refine wp_quiet stable_true (isLinkedDevice_within Quiet.refl _ _) trivial fun _ ws s _ => ?_
  exact wp_raiseIf_bind fun _ => wp_uinEpoch_mint hr.symm

/-! ## Linked devices -/

theorem linkDevice_safe {label : String} : (outline cfg).Safe r (linkDevice token label) ws s := by
  refine wp_authorizeSession stable_true trivial fun ws s _ => ?_
  refine wp_looks stable_true trivial fun _ ws s _ _ => wp_raiseIf_bind fun _ => ?_
  refine wp_bind.mpr (wp_does stable_true trivial
    (fun _ e _ _ => .link e token.uin label) fun _ e ws s _ _ hs _ => ?_)
  have hbirth : s.ext.births.get (token.uin, e.nextDevice) = some e.now := by
    rw [hs]
    exact Table.get_set_self _ _ _
  refine wp_bind.mpr (wp_does (stable_birth token.uin e.nextDevice e.now) hbirth
    (fun _ e' _ h => .renew h) fun _ e' ws s _ _ hs hbirth => ?_)
  have hlinked : s.ext.Linked token.uin e.nextDevice e.now := by
    refine ⟨hbirth, ?_⟩
    rw [hs]
    exact fun hmem => absurd rfl (of_decide_eq_true (mem_filter.mp hmem).2)
  have hK := stable_linked token.uin e.nextDevice e.now
  refine wp_quiet hK (uinEpoch_quiet _) hlinked fun epoch ws s hlinked => ?_
  exact wp_does hK hlinked (fun _ _ _ h => .mintLinked epoch h) fun _ _ _ _ _ _ _ _ => trivial

theorem markDeviceSeen_safe : (outline cfg).Safe r (markDeviceSeen token) ws s := by
  refine wp_authorizeSession stable_true trivial fun ws s _ => ?_
  split
  · exact trivial
  rename_i d _
  refine wp_looks stable_true trivial fun _ ws s hbase _ => ?_
  split
  · exact trivial
  · rename_i entry hentry
    have hbirth := hbase.rows _ _ _ hentry
    unfold onlyIf
    split
    · exact wp_does (stable_birth token.uin d entry.createdAt) hbirth (fun _ _ _ h => .seen h)
        fun _ _ _ _ _ _ _ _ => trivial
    · exact trivial

theorem sweep_safe (devices : List DeviceId) : (outline cfg).Safe r (sweep u devices) ws s := by
  induction devices generalizing ws s with
  | nil => exact trivial
  | cons d rest ih =>
    exact wp_bind.mpr (wp_does stable_true trivial (fun _ e _ _ => .sweep e u d)
      fun _ _ _ _ _ _ _ _ => ih)

theorem listDevices_safe : (outline cfg).Safe r (listDevices token) ws s := by
  refine wp_authorizeSession stable_true trivial fun ws s _ => ?_
  exact wp_looks stable_true trivial fun _ ws s _ _ => safe_map (sweep_safe _) _

theorem revoke_safe : (outline cfg).Safe r (revoke u d) ws s := by
  refine wp_bind.mpr (wp_does stable_true trivial (fun _ e _ _ => .dropRevoked e u d)
    fun _ _ ws s _ _ _ _ => ?_)
  refine wp_bind.mpr (wp_does stable_true trivial (fun _ e _ _ => .deny e u d)
    fun _ _ ws s _ _ _ _ => ?_)
  exact wp_does_last fun _ e => .expireDenylist e u d

theorem revokeOwnDevice_safe : (outline cfg).Safe r (revokeOwnDevice token) ws s := by
  refine wp_authorizeSession stable_true trivial fun ws s _ => ?_
  refine wp_quiet stable_true (isLinkedDevice_within Quiet.refl _ _) trivial
    fun linked ws s _ => ?_
  split
  · exact trivial
  · unfold onlyIf
    split
    · exact revoke_safe
    · exact trivial

theorem wp_revokerGate {target : Target} {born : Option Time} {f : Unit → Handler β}
    (h : s.ext.Signed token ∧ s.ext.BornAt token.uin target born)
    (hf : ∀ ws s, (outline cfg).Safe r (f ()) ws s) :
    (outline cfg).Safe r ((revokerGate cfg token target born).bind f) ws s := by
  refine wp_seq (Q := fun _ _ _ => True) ?_ fun _ ws s _ => hf ws s
  unfold revokerGate
  split
  · exact trivial
  · rename_i d hd
    have hK := (stable_signed token).and (stable_bornAt token.uin target born)
    refine wp_bind.mpr (wp_does hK h (fun _ e _ hKe => ?_) fun _ _ _ _ _ _ _ _ => ?_)
    · split
      · exact .gatePass hKe.1 hd hKe.2 ‹_›
      · exact .quiet (.refl e)
    · exact wp_raiseIf fun _ => trivial

theorem revokeDevice_safe : (outline cfg).Safe r (revokeDevice cfg token d) ws s := by
  refine wp_authorizeSession stable_true trivial fun ws s h => ?_
  refine wp_looks (stable_signed token) h.2 fun _ ws s hbase h => ?_
  refine wp_revokerGate ⟨h, fun b hb => ?_⟩ fun ws s => revoke_safe
  obtain ⟨entry, hentry, rfl⟩ := Option.map_eq_some_iff.mp hb
  exact hbase.rows _ _ _ hentry

theorem revokeDeviceSlot_safe {slot : ℕ} :
    (outline cfg).Safe r (revokeDeviceSlot cfg token slot) ws s := by
  refine wp_authorizeSession stable_true trivial fun ws s h => wp_raiseIf_bind fun _ => ?_
  refine wp_looks (stable_signed token) h.2 fun _ ws s hbase h => ?_
  split
  · exact trivial
  rename_i row _
  refine wp_revokerGate ⟨h, rfl⟩ fun ws s => ?_
  refine wp_quiet stable_true (Within.write Quiet.refl fun _ _ _ _ => trivial) trivial
    fun _ ws s _ => ?_
  have hcommit : (commit .commitSlot id (.ret ()) : Handler Unit).Within (fun _ => True) Quiet :=
    ⟨Quiet.refl, trivial⟩
  refine wp_quiet stable_true hcommit trivial fun _ ws s _ => ?_
  split
  · exact trivial
  · unfold onlyIf
    split
    · exact revoke_safe
    · exact trivial

/-! ## Rotations -/

theorem applyChange_safe {env : ReissueEnv} {c : Change} {taken : List Uin}
    {claim : Option Claim} (hr : r.remints = some token) :
    (outline cfg).Safe r (applyChange token env c taken claim) ws s := by
  have hfail : ∀ ws s, (outline cfg).Safe r (failRotation c claim : Handler Token)
      ws s := fun ws s => wp_quiet_last (failRotation_within quiet_claim c claim)
  refine wp_quiet stable_true (Within.write Quiet.refl fun _ _ _ _ => trivial) trivial
    fun _ ws s _ => ?_
  refine wp_quiet stable_true (retireOld_within Quiet.refl (fun _ _ => trivial) _ _) trivial
    fun retired ws s _ => ?_
  split
  · exact hfail ws s
  refine wp_quiet stable_true (bumpIfSigned_within Quiet.refl (fun _ _ => trivial) _ _) trivial
    fun epoch ws s _ => ?_
  split
  · exact hfail ws s
  rename_i epoch
  split
  · exact hfail ws s
  have hcommit : (commit (.rotate c.uin c.newSigning (.commit claim.isSome))
      (fun e => e.rotated c taken claim epoch) (.ret ()) : Handler Unit).Within
        (fun _ => True) Quiet := by
    refine ⟨fun e => ?_, trivial⟩
    constructor <;> rfl
  refine wp_quiet stable_true hcommit trivial fun _ ws s _ => ?_
  unfold handOver
  split
  · refine wp_quiet stable_true (cacheUinEpoch_quiet _ _ _) trivial fun _ ws s _ => ?_
    exact wp_mint (fun now => issueToken_linked now _ _ _) hr.symm
  · exact wp_uinEpoch_mint hr.symm

theorem reissue_safe {body : ReissueIn} {env : ReissueEnv} (hr : r.remints = some token) :
    (outline cfg).Safe r (reissue verify token body env) ws s := by
  refine wp_authorizeSession stable_true trivial fun ws s _ => ?_
  split
  · refine wp_looks stable_true trivial fun _ ws s _ _ => ?_
    split
    · exact trivial
    · split
      · split
        · exact trivial
        · exact wp_uinEpoch_mint hr.symm
      · refine wp_looks stable_true trivial fun _ ws s _ _ => ?_
        refine wp_quiet stable_true (judge_within Quiet.refl quiet_claim _ _ _ _) trivial
          fun claim ws s _ => ?_
        exact applyChange_safe hr
  · exact trivial

/-! ## The system -/

theorem handler_safe (cfg : Config) (verify : Verify) (r : Request) (s : State) :
    (outline cfg).Safe r (handler cfg verify r) [] s := by
  cases r with
  | check token =>
    have hcheck : (outline cfg).Safe (.check token) ((authorizeSession token).bind .ret) [] s :=
      wp_authorizeSession stable_true trivial fun _ _ _ => trivial
    exact wp_seq (wp_mono (wp_bind.mp hcheck) fun _ _ _ _ => trivial)
      fun _ _ _ _ => trivial
  | login u d => exact safe_map (login_safe rfl) _
  | session token => exact safe_map (session_safe rfl) _
  | claimDevice token d => exact safe_map (claimDevice_safe rfl) _
  | linkDevice token label => exact safe_map linkDevice_safe _
  | markDeviceSeen token => exact safe_map markDeviceSeen_safe _
  | listDevices token => exact safe_map listDevices_safe _
  | revokeOwnDevice token => exact safe_map revokeOwnDevice_safe _
  | revokeDevice token d => exact safe_map revokeDevice_safe _
  | revokeDeviceSlot token slot => exact safe_map revokeDeviceSlot_safe _
  | reissue token body env => exact safe_map (reissue_safe rfl) _
  | burn u => exact safe_map (wp_quiet_last (burn_quiet u)) _
  | background => exact safe_map (wp_quiet_last background_quiet) _
  | tick seconds =>
    exact safe_map (wp_does_last fun _ e => .tick e seconds) _

theorem base_initial (now : Time) : Base (.initial now) where
  rows _ _ _ h := nomatch h
  fresh _ _ _ := rfl

section Runs

variable {ok : World → Action Request → Prop} {db : Db} {now : Time} {w w' : World} {n : ℕ}

/-- Every step of every run is on the list. -/
theorem does_of_step (hrun : Run (handler cfg verify) ok (.fresh db (.initial now)) w)
    (hnext : w.next (handler cfg verify) (.step n) = some w') :
    w'.shared.ext = w.shared.ext ∨ ∃ r l, w.upcoming n = some (r, l) ∧ Base w.shared.ext ∧
      Does cfg r l w.shared.ext w'.shared.ext := by
  have hallows : ∀ (w : World) a, (outline cfg).Allows w a :=
    allows_of_forall (fun _ _ => trivial) (fun _ _ _ => trivial) fun _ _ _ _ => trivial
  have hinit : (outline cfg).Inv ⟨db, .initial now, []⟩ := base_initial now
  rcases step_of_run (coherent cfg) (fun r s _ _ => handler_safe cfg verify r s) hinit
    (Run.mono (fun w a _ => hallows w a) hrun) (hallows w _) hnext with
    hsame | ⟨r, l, ws, hn, hinv, hstep⟩
  · exact .inl (congrArg Shared.ext hsame)
  · exact .inr ⟨r, l, hn, hinv, hstep.guar⟩

/-- What every statement keeps where it may run, every run keeps. -/
theorem ext_inv_of_run {I : Ext → Prop} (hinit : I (.initial now)) (hstep : ∀ (w : World) n r l e',
      Run (handler cfg verify) ok (.fresh db (.initial now)) w → ok w (.step n) →
      w.upcoming n = some (r, l) → Base w.shared.ext → Does cfg r l w.shared.ext e' →
      I w.shared.ext → I e')
    (hrun : Run (handler cfg verify) ok (.fresh db (.initial now)) w) : I w.shared.ext := by
  induction hrun with
  | refl => exact hinit
  | tail hbefore hlast ih =>
    obtain ⟨a, hok, hnext⟩ := hlast
    cases a with
    | start r =>
      simp only [World.next, Option.some.injEq] at hnext
      subst hnext
      exact ih
    | step n =>
      rcases does_of_step hbefore hnext with hsame | ⟨r, l, hn, hbase, hdoes⟩
      · rw [hsame]
        exact ih
      · exact hstep _ n r l _ hbefore hok hn hbase hdoes ih
    | kill n =>
      obtain ⟨r, p, ws, -, rfl⟩ := next_kill_cases hnext
      exact ih

end Runs

end RcqServer.Sessions
