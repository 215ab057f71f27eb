import RcqServer.Sessions.Steps

/-!
# What the requests are made of

Most requests check a token, look at Redis, change the registry of devices, and perhaps mint a token
under the epoch that they read.  A property of programs that these parts have and that composes is a
property of all of them; only rotations and bumps need a look of their own.
-/

namespace RcqServer.Sessions

open ReadCommitted Prog

/-- A command on the registries of devices and on the locks, or a record about them. -/
structure Aside (e e' : Ext) : Prop where
  now : e'.now = e.now
  epochs : e'.epochs = e.epochs
  issued : e'.issued = e.issued
  bumps : e'.bumps = e.bumps
  epochPasses : e'.epochPasses = e.epochPasses
  rotations : e'.rotations = e.rotations
  nonces : e'.nonces = e.nonces

theorem Aside.refl (e : Ext) : Aside e e := by
  constructor <;> rfl

theorem Aside.ite {c : Prop} [Decidable c] {e e' : Ext} (h : Aside e e') :
    Aside e (if c then e' else e) := by
  split
  · exact h
  · exact .refl e

/-- A property that composes and that the parts have. -/
structure Common (P : {α : Type} → Handler α → Prop) : Prop where
  ret : ∀ {α : Type} (a : α), P (ret a)
  raise : ∀ {α : Type} (error : HttpError), P (raise error : Handler α)
  bind : ∀ {α β : Type} {p : Handler α} {f : α → Handler β}, P p → (∀ a, P (f a)) → P (p.bind f)
  read : ∀ {α : Type} (l : Label) (q : Db → Ext → α), P (read l q)
  aside : ∀ {α : Type} (l : Label) (x : Db → Ext → Ext) (k : Db → Ext → Handler α),
    (∀ db e, Aside e (x db e)) → (∀ db e, P (k db e)) → P (stmt l (fun _ _ => []) x k)
  retireSlot : ∀ (slot : Uin × ℕ) (row : Time → KeySlot),
    P (write .retireSlot (fun _ e => [.slot slot (some (row e.now))]) fun _ _ => ())
  commitSlot : P (commit .commitSlot id (.ret ()))
  loadEpochs : P Sessions.loadEpochs
  epochCheck : ∀ token : Token, P (stmt (.epochCheck token) (fun _ _ => [])
    (fun _ e => if token.epoch = e.cachedEpoch token.uin then
      { e with epochPasses := ⟨token, e.bumps⟩ :: e.epochPasses } else e)
    fun _ e => .ret (decide (token.epoch = e.cachedEpoch token.uin)))
  /-- A token is minted under the epoch that was read for its number. -/
  mint : ∀ (l : Label) (bearer : Option Token) (uin : Uin) (make : ℕ → Time → Token),
    (∀ epoch now, (make epoch now).uin = uin ∧ (make epoch now).epoch = epoch) →
    P ((Prog.read .readEpoch fun _ e => e.cachedEpoch uin).bind fun epoch =>
      Sessions.mint l bearer (make epoch))

namespace Common

variable {P : {α : Type} → Handler α → Prop} (hP : Common P)

include hP

theorem effect (l : Label) (x : Db → Ext → Ext) (hx : ∀ db e, Aside e (x db e)) :
    P (Prog.effect l x) :=
  hP.aside l x _ hx fun _ _ => hP.ret ()

theorem raiseIf (c : Prop) [Decidable c] (error : HttpError) : P (Prog.raiseIf c error) := by
  unfold Prog.raiseIf
  split
  · exact hP.raise error
  · exact hP.ret ()

theorem onlyIf (c : Prop) [Decidable c] {p : Handler Unit} (hp : P p) : P (Prog.onlyIf c p) := by
  unfold Prog.onlyIf
  split
  · exact hp
  · exact hP.ret ()

/-! ## Checking and minting -/

theorem ensureEpochs : P Sessions.ensureEpochs :=
  hP.bind (hP.read _ _) fun _ => hP.onlyIf _ hP.loadEpochs

theorem checkDevice (token : Token) : P (Sessions.checkDevice token) := by
  unfold Sessions.checkDevice
  split
  · exact hP.ret ()
  · refine hP.bind (hP.aside _ _ _ (fun _ e => .ite ?_) fun _ _ => hP.ret _) fun _ =>
      hP.raiseIf _ _
    constructor <;> rfl

theorem authorizeSession (token : Token) : P (Sessions.authorizeSession token) := by
  refine hP.bind (hP.bind (hP.read _ _) fun _ => hP.raiseIf _ _) fun _ => ?_
  refine hP.bind (hP.checkDevice token) fun _ => ?_
  refine hP.bind ?_ fun _ => ?_
  · exact hP.bind hP.ensureEpochs fun _ => hP.bind (hP.epochCheck token) fun _ => hP.raiseIf _ _
  · exact hP.bind (hP.read _ _) fun _ => hP.bind (hP.raiseIf _ _) fun _ => hP.ret _

theorem uinEpoch_mint (l : Label) (bearer : Option Token) (uin : Uin) (make : ℕ → Time → Token)
    (hmake : ∀ epoch now, (make epoch now).uin = uin ∧ (make epoch now).epoch = epoch) :
    P ((uinEpoch uin).bind fun epoch => Sessions.mint l bearer (make epoch)) := by
  rw [uinEpoch, bind_eq, bind_assoc]
  exact hP.bind hP.ensureEpochs fun _ => hP.mint l bearer uin make hmake

theorem refuseRevokedDevice (uin : Uin) (device : Option DeviceId) :
    P (Sessions.refuseRevokedDevice uin device) := by
  cases device with
  | none => exact hP.ret ()
  | some device => exact hP.bind (hP.read _ _) fun _ => hP.raiseIf _ _

theorem isLinkedDevice (uin : Uin) (device : Option DeviceId) :
    P (Sessions.isLinkedDevice uin device) := by
  cases device with
  | none => exact hP.ret false
  | some device => exact hP.read _ _

theorem login (uin : Uin) (device : Option DeviceId) : P (Sessions.login uin device) :=
  hP.bind (hP.refuseRevokedDevice uin device) fun _ => hP.uinEpoch_mint _ _ uin
    (fun epoch now => issueToken now uin epoch device) fun _ _ => ⟨rfl, rfl⟩

theorem session (token : Token) : P (Sessions.session token) :=
  hP.bind (hP.authorizeSession token) fun uin => hP.uinEpoch_mint _ _ uin
    (fun epoch now => issueToken now uin epoch token.device) fun _ _ => ⟨rfl, rfl⟩

theorem claimDevice (token : Token) (device : DeviceId) :
    P (Sessions.claimDevice token device) := by
  refine hP.bind (hP.authorizeSession token) fun uin => ?_
  refine hP.bind (hP.refuseRevokedDevice uin _) fun _ => ?_
  refine hP.bind (hP.isLinkedDevice uin _) fun _ => hP.bind (hP.raiseIf _ _) fun _ => ?_
  exact hP.uinEpoch_mint _ _ uin (fun epoch now => issueToken now uin epoch (some device))
    fun _ _ => ⟨rfl, rfl⟩

theorem background : P Sessions.background := by
  refine hP.bind (hP.aside _ _ _ (fun _ e => .ite ?_) fun _ _ => hP.ret _) fun _ => hP.onlyIf _ ?_
  · constructor <;> rfl
  · refine hP.bind hP.loadEpochs fun _ => hP.effect _ _ fun _ e => ?_
    constructor <;> rfl

/-! ## Devices -/

theorem linkDevice (token : Token) (label : String) : P (Sessions.linkDevice token label) := by
  refine hP.bind (hP.authorizeSession token) fun uin => ?_
  refine hP.bind (hP.read _ _) fun _ => hP.bind (hP.raiseIf _ _) fun _ => ?_
  refine hP.bind (hP.aside _ _ _ (fun _ e => ?_) fun _ _ => hP.ret _) fun entry => ?_
  · constructor <;> rfl
  refine hP.bind (hP.effect _ _ fun _ e => ?_) fun _ => ?_
  · constructor <;> rfl
  · exact hP.uinEpoch_mint _ _ uin (fun epoch now => issueDeviceToken now uin entry.1 epoch)
      fun _ _ => ⟨rfl, rfl⟩

theorem markDeviceSeen (token : Token) : P (Sessions.markDeviceSeen token) := by
  refine hP.bind (hP.authorizeSession token) fun uin => ?_
  split
  · exact hP.ret ()
  refine hP.bind (hP.read _ _) fun entry => ?_
  split
  · exact hP.ret ()
  · refine hP.onlyIf _ (hP.effect _ _ fun _ e => ?_)
    constructor <;> rfl

theorem sweep (uin : Uin) (devices : List DeviceId) : P (Sessions.sweep uin devices) := by
  induction devices with
  | nil => exact hP.ret ()
  | cons device rest ih =>
    refine hP.bind (hP.effect _ _ fun _ e => ?_) fun _ => ih
    constructor <;> rfl

theorem listDevices (token : Token) : P (Sessions.listDevices token) :=
  hP.bind (hP.authorizeSession token) fun uin => hP.bind (hP.read _ _) fun _ =>
    hP.bind (hP.sweep uin _) fun _ => hP.ret _

theorem revoke (uin : Uin) (device : DeviceId) : P (Sessions.revoke uin device) := by
  refine hP.bind (hP.effect _ _ fun _ e => ?_) fun _ => ?_
  · constructor <;> rfl
  refine hP.bind (hP.effect _ _ fun _ e => ?_) fun _ => hP.effect _ _ fun _ e => ?_
  · constructor <;> rfl
  · constructor <;> rfl

theorem revokeOwnDevice (token : Token) : P (Sessions.revokeOwnDevice token) := by
  refine hP.bind (hP.authorizeSession token) fun uin => ?_
  refine hP.bind (hP.isLinkedDevice uin _) fun _ => ?_
  split
  · exact hP.ret ()
  · exact hP.onlyIf _ (hP.revoke uin _)

theorem revokerGate (cfg : Config) (token : Token) (target : Target) (born : Option Time) :
    P (Sessions.revokerGate cfg token target born) := by
  unfold Sessions.revokerGate
  split
  · exact hP.ret ()
  · refine hP.bind (hP.aside _ _ _ (fun _ e => .ite ?_) fun _ _ => hP.ret _) fun _ =>
      hP.raiseIf _ _
    constructor <;> rfl

theorem revokeDevice (cfg : Config) (token : Token) (device : DeviceId) :
    P (Sessions.revokeDevice cfg token device) :=
  hP.bind (hP.authorizeSession token) fun uin => hP.bind (hP.read _ _) fun _ =>
    hP.bind (hP.revokerGate cfg token _ _) fun _ => hP.revoke uin device

theorem revokeDeviceSlot (cfg : Config) (token : Token) (slot : ℕ) :
    P (Sessions.revokeDeviceSlot cfg token slot) := by
  refine hP.bind (hP.authorizeSession token) fun uin => hP.bind (hP.raiseIf _ _) fun _ => ?_
  refine hP.bind (hP.read _ _) fun row => ?_
  split
  · exact hP.raise _
  refine hP.bind (hP.revokerGate cfg token _ _) fun _ => ?_
  refine hP.bind (hP.retireSlot (uin, slot) fun now => ⟨now, none, some now⟩) fun _ => ?_
  refine hP.bind hP.commitSlot fun _ => ?_
  split
  · exact hP.ret ()
  · exact hP.onlyIf _ (hP.revoke uin _)

/-! ## Requests -/

/-- What is left to look at: rotations, bumps, and time. -/
theorem handler (cfg : Config) (verify : Verify) (r : Request)
    (hreissue : ∀ token body env, r = .reissue token body env →
      P (Sessions.reissue verify token body env)) (hburn : ∀ uin, P (burn uin))
    (htick : ∀ seconds, P (Prog.effect .tick fun _ e => { e with now := e.now + seconds })) :
    P (Sessions.handler cfg verify r) := by
  have hdone : ∀ {α : Type} {p : Handler α} (f : α → Answer), P p →
      P (p.bind fun a => .ret (f a)) := fun f hp => hP.bind hp fun _ => hP.ret _
  cases r with
  | check token => exact hdone _ (hP.authorizeSession token)
  | login uin device => exact hdone _ (hP.login uin device)
  | session token => exact hdone _ (hP.session token)
  | claimDevice token device => exact hdone _ (hP.claimDevice token device)
  | linkDevice token label => exact hdone _ (hP.linkDevice token label)
  | markDeviceSeen token => exact hdone _ (hP.markDeviceSeen token)
  | listDevices token => exact hdone _ (hP.listDevices token)
  | revokeOwnDevice token => exact hdone _ (hP.revokeOwnDevice token)
  | revokeDevice token device => exact hdone _ (hP.revokeDevice cfg token device)
  | revokeDeviceSlot token slot => exact hdone _ (hP.revokeDeviceSlot cfg token slot)
  | reissue token body env => exact hdone _ (hreissue token body env rfl)
  | burn uin => exact hdone _ (hburn uin)
  | background => exact hdone _ hP.background
  | tick seconds => exact hdone _ (htick seconds)

end Common

end RcqServer.Sessions
