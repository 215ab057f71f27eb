import RcqServer.Sessions.Server
import RcqServer.ReadCommitted.Frame

/-!
# What a statement can do outside the transaction

`Does r l e e'` lists, once for all requests, what a statement with the label `l` may do to tokens,
registries and denylists, together with what the request knows by then: that its token carries the
service's signature, when the device that it is about was registered.  `does_of_step` says that every
step of every run is on the list.  Properties of runs are then proved statement by statement,
without looking at the programs again.
-/

namespace RcqServer.Sessions

open ReadCommitted Prog Outline Option Table List Expiring

/-! ## Redis commands -/

variable {e e' : Ext} {u u' : Uin} {d d' : DeviceId}

theorem registry_onDevices (e : Ext) (u u' : Uin)
    (f : Option (Entry (Table DeviceId DeviceEntry)) →
      Option (Entry (Table DeviceId DeviceEntry))) :
    (e.onDevices u f).registry u' = if u' = u then
      (Expiring.read e.now (f (e.devices.get u))).getD ∅ else e.registry u' := by
  unfold Ext.registry Ext.onDevices
  rw [get_set]
  split
  · rfl
  · rfl

theorem deviceRow_setDevice (e : Ext) (u u' : Uin) (d d' : DeviceId) (entry : DeviceEntry) :
    (e.setDevice u d entry).deviceRow u' d' =
      if u' = u ∧ d' = d then some entry else e.deviceRow u' d' := by
  unfold Ext.deviceRow Ext.setDevice
  rw [registry_onDevices, read_alter]
  by_cases hu : u' = u
  · subst hu
    rw [if_pos rfl, getD_some, get_set]
    by_cases hd : d' = d
    · simp [hd]
    · simp [hd, Ext.registry]
  · simp [hu]

theorem get_eq_none_of_rows {κ ν : Type} [DecidableEq κ] {t : Table κ ν} (h : t.rows = []) (k : κ) :
    t.get k = none := by
  cases hget : t.get k with
  | none => rfl
  | some v =>
    have hmem := mem_rows.mpr hget
    rw [h] at hmem
    cases hmem

/-- A hash without fields has none to look up either. -/
theorem get_withoutField (rows : Table DeviceId DeviceEntry) (d d' : DeviceId) :
    ((withoutField d (some rows)).getD ∅).get d' = (rows.set d none).get d' := by
  unfold withoutField
  rw [map_some]
  cases hempty : (rows.set d none).rows.isEmpty with
  | false => rw [filter_some_pos (by simpa using hempty), getD_some]
  | true =>
    rw [filter_some_neg (by simp [hempty]), getD_none, get_empty]
    exact (get_eq_none_of_rows (isEmpty_iff.mp hempty) d').symm

theorem deviceRow_dropDevice (e : Ext) (u u' : Uin) (d d' : DeviceId) :
    (e.dropDevice u d).deviceRow u' d' = if u' = u ∧ d' = d then none else e.deviceRow u' d' := by
  unfold Ext.deviceRow Ext.dropDevice
  rw [registry_onDevices, read_alter]
  by_cases hu : u' = u
  · subst hu
    rw [if_pos rfl]
    cases hread : Expiring.read e.now (e.devices.get u') with
    | none => simp [Ext.registry, hread, withoutField]
    | some rows =>
      rw [get_withoutField, get_set]
      by_cases hd : d' = d
      · simp [hd]
      · simp [hd, Ext.registry, hread]
  · simp [hu]

theorem deviceRow_renewDevices (e : Ext) (u u' : Uin) (d d' : DeviceId) :
    (e.renewDevices u d).deviceRow u' d' = e.deviceRow u' d' := by
  have hregistry : ((e.onDevices u (Expiring.expire e.now deviceTtl)).registry u').get d' =
      (e.registry u').get d' := by
    rw [registry_onDevices]
    split
    · rename_i hu
      subst hu
      rw [read_expire (by decide)]
      rfl
    · rfl
  exact hregistry

/-- Time takes entries away and brings none. -/
theorem deviceRow_of_later {seconds : ℕ} {entry : DeviceEntry}
    (h : Ext.deviceRow { e with now := e.now + seconds } u d = some entry) :
    e.deviceRow u d = some entry := by
  unfold Ext.deviceRow Ext.registry at h ⊢
  cases hread : Expiring.read (e.now + seconds) (e.devices.get u) with
  | none => simp [hread] at h
  | some rows =>
    rw [read_of_later (Nat.le_add_right _ _) hread]
    simpa [hread] using h

/-! ## What requests know -/

/-- The token carries the service's signature. -/
def Ext.Signed (e : Ext) (token : Token) : Prop := ∃ i ∈ e.issued, i.token = token

/-- The device is linked since `born`, and its registration is complete. -/
structure Ext.Linked (e : Ext) (u : Uin) (d : DeviceId) (born : Time) : Prop where
  birth : e.births.get (u, d) = some born
  complete : (u, d) ∉ e.linking

/-- What is never taken back. -/
structure Grows (e e' : Ext) : Prop where
  now : e.now ≤ e'.now
  issued : ∀ i ∈ e.issued, i ∈ e'.issued
  births : ∀ k born, e.births.get k = some born → e'.births.get k = some born
  linking : ∀ k born, e.births.get k = some born → k ∉ e.linking → k ∉ e'.linking

theorem Grows.refl (e : Ext) : Grows e e :=
  ⟨le_rfl, fun _ h => h, fun _ _ h => h, fun _ _ _ h => h⟩

theorem Grows.trans {e'' : Ext} (h : Grows e e') (h' : Grows e' e'') : Grows e e'' where
  now := h.now.trans h'.now
  issued i hi := h'.issued i (h.issued i hi)
  births k born hk := h'.births k born (h.births k born hk)
  linking k born hk hlink := h'.linking k born (h.births k born hk) (h.linking k born hk hlink)

/-- Every entry of a registry has the time of its registration, and ids never come twice. -/
structure Base (e : Ext) : Prop where
  rows : ∀ u d entry, e.deviceRow u d = some entry → e.births.get (u, d) = some entry.createdAt
  fresh : ∀ u d, e.nextDevice ≤ d → e.births.get (u, d) = none

/-- Tokens, registries, denylists, the clock and their records are as before. -/
structure Quiet (e e' : Ext) : Prop where
  now : e'.now = e.now
  devices : e'.devices = e.devices
  revoked : e'.revoked = e.revoked
  nextDevice : e'.nextDevice = e.nextDevice
  issued : e'.issued = e.issued
  devicePasses : e'.devicePasses = e.devicePasses
  gatePasses : e'.gatePasses = e.gatePasses
  revocations : e'.revocations = e.revocations
  births : e'.births = e.births
  linking : e'.linking = e.linking
  revoking : e'.revoking = e.revoking

theorem Quiet.refl (e : Ext) : Quiet e e := by
  constructor <;> rfl

/-! ## The list -/

/-- When the target of a revocation was born, as far as the request has found out. -/
def Ext.BornAt (e : Ext) (u : Uin) : Target → Option Time → Prop
  | .device d, born => ∀ b ∈ born, e.births.get (u, d) = some b
  | .slot createdAt, born => born = some createdAt

/-- The bearer that a request has a new token minted for. -/
def Request.remints : Request → Option Token
  | .session token => some token
  | .claimDevice token _ => some token
  | .reissue token _ _ => some token
  | _ => none

/-- What a statement of request `r` with label `l` may do. -/
inductive Does (cfg : Config) (r : Request) : Label → Ext → Ext → Prop
  | quiet {l : Label} {e e' : Ext} (h : Quiet e e') : Does cfg r l e e'
  | tick (e : Ext) (seconds : ℕ) : Does cfg r .tick e { e with now := e.now + seconds }
  | mint {e : Ext} {token : Token} {bearer : Option Token} (phone : token.linked = false)
      (minted : bearer = r.remints) :
      Does cfg r .mint e { e with issued := ⟨token, bearer⟩ :: e.issued }
  | mintLinked {e : Ext} {u : Uin} {d : DeviceId} {born : Time} (epoch : ℕ)
      (linked : e.Linked u d born) :
      Does cfg r (.mintLinked born) e
        { e with issued := ⟨issueDeviceToken e.now u d epoch, none⟩ :: e.issued }
  | link (e : Ext) (u : Uin) (label : String) : Does cfg r .linkDevice e (e.link u label)
  | renew {e : Ext} {u : Uin} {d : DeviceId} {born : Time}
      (birth : e.births.get (u, d) = some born) :
      Does cfg r (.expireDevices born) e (e.renewDevices u d)
  | seen {e : Ext} {u : Uin} {d : DeviceId} {entry : DeviceEntry}
      (birth : e.births.get (u, d) = some entry.createdAt) :
      Does cfg r .clearPending e (e.setDevice u d entry)
  | sweep (e : Ext) (u : Uin) (d : DeviceId) : Does cfg r (.sweep u d) e (e.dropDevice u d)
  | dropRevoked (e : Ext) (u : Uin) (d : DeviceId) :
      Does cfg r (.dropRevoked u d) e
        { e.dropDevice u d with revoking := (u, d) :: e.revoking }
  | deny (e : Ext) (u : Uin) (d : DeviceId) : Does cfg r (.deny u d) e (e.deny u d)
  | expireDenylist (e : Ext) (u : Uin) (d : DeviceId) :
      Does cfg r (.expireDenylist u d) e
        { e.onRevoked u (Expiring.expire e.now deviceTtl) with
          revoking := e.revoking.filter (· ≠ (u, d))
          revocations := ⟨u, d, e.now⟩ :: e.revocations }
  | devicePass {e : Ext} {token : Token} {d : DeviceId} (signed : e.Signed token)
      (device : token.device = some d) (pass : e.passesDevice token d) :
      Does cfg r (.denylist token) e
        { e with devicePasses :=
            ⟨token, e.revocations, (e.deviceRow token.uin d).isSome⟩ :: e.devicePasses }
  | gatePass {e : Ext} {token : Token} {d : DeviceId} {target : Target} {born : Option Time}
      (signed : e.Signed token) (device : token.device = some d)
      (targetBorn : e.BornAt token.uin target born)
      (pass : e.mayRevoke cfg token.uin d born) :
      Does cfg r (.gate token) e { e with gatePasses := ⟨token, target, e.now⟩ :: e.gatePasses }

variable {cfg : Config} {verify : Verify} {r : Request} {l : Label}

theorem Does.grows (h : Does cfg r l e e') (hbase : Base e) : Grows e e' := by
  cases h with
  | quiet h =>
    exact ⟨h.now.ge, fun i hi => h.issued ▸ hi, fun k b hk => h.births ▸ hk,
      fun k b _ hlink => h.linking ▸ hlink⟩
  | tick _ seconds => exact ⟨Nat.le_add_right _ _, fun _ h => h, fun _ _ h => h, fun _ _ _ h => h⟩
  | mint _ _ | mintLinked _ _ =>
    exact ⟨le_rfl, fun _ h => mem_cons_of_mem _ h, fun _ _ h => h, fun _ _ _ h => h⟩
  | link _ u label =>
    -- the new id is not one that was registered before
    have hne : ∀ k born, e.births.get k = some born → k ≠ (u, e.nextDevice) := by
      rintro k born hk rfl
      rw [hbase.fresh u _ le_rfl] at hk
      cases hk
    refine ⟨le_rfl, fun _ h => h, fun k born hk => ?_, fun k born hk hlink hmem => ?_⟩
    · exact (get_set_ne e.births (hne k born hk) _).trans hk
    · rcases mem_cons.mp hmem with rfl | hmem
      · exact hne _ born hk rfl
      · exact hlink hmem
  | renew _ =>
    exact ⟨le_rfl, fun _ h => h, fun _ _ h => h,
      fun _ _ _ hlink hmem => hlink (mem_filter.mp hmem).1⟩
  | _ => exact ⟨le_rfl, fun _ h => h, fun _ _ h => h, fun _ _ _ h => h⟩

theorem Does.base (h : Does cfg r l e e') (hbase : Base e) : Base e' := by
  cases h with
  | quiet h =>
    refine ⟨fun u d entry hrow => ?_, fun u d hd => ?_⟩
    · rw [h.births]
      refine hbase.rows u d entry ?_
      rw [← hrow, Ext.deviceRow, Ext.deviceRow, Ext.registry, Ext.registry, h.now, h.devices]
    · rw [h.births]
      exact hbase.fresh u d (h.nextDevice ▸ hd)
  | tick _ seconds => exact ⟨fun u d entry hrow => hbase.rows u d entry (deviceRow_of_later hrow),
      hbase.fresh⟩
  | link _ u label =>
    refine ⟨fun u' d' entry hrow => ?_, fun u' d' hd => ?_⟩
    · have hset : (e.setDevice u e.nextDevice ⟨label, e.now, true⟩).deviceRow u' d' =
          some entry := hrow
      rw [deviceRow_setDevice] at hset
      change (e.births.set (u, e.nextDevice) (some e.now)).get (u', d') = some entry.createdAt
      rw [get_set]
      split at hset
      · rename_i hkey
        obtain ⟨rfl, rfl⟩ := hkey
        obtain rfl := some.inj hset
        rw [if_pos rfl]
      · rename_i hkey
        rw [if_neg fun heq => hkey (Prod.mk.inj heq)]
        exact hbase.rows u' d' entry hset
    · have hlt : e.nextDevice < d' := hd
      change (e.births.set (u, e.nextDevice) (some e.now)).get (u', d') = none
      rw [get_set_ne _ fun heq => Nat.ne_of_gt hlt (Prod.mk.inj heq).2]
      exact hbase.fresh u' d' (Nat.le_of_lt hlt)
  | @renew _ u d born _ =>
    refine ⟨fun u' d' entry hrow => ?_, hbase.fresh⟩
    rw [deviceRow_renewDevices] at hrow
    exact hbase.rows u' d' entry hrow
  | @seen _ u d entry hbirth =>
    refine ⟨fun u' d' entry' hrow => ?_, hbase.fresh⟩
    rw [deviceRow_setDevice] at hrow
    split at hrow
    · rename_i hkey
      obtain ⟨rfl, rfl⟩ := hkey
      obtain rfl := some.inj hrow
      exact hbirth
    · exact hbase.rows u' d' entry' hrow
  | sweep _ u d =>
    refine ⟨fun u' d' entry hrow => ?_, hbase.fresh⟩
    rw [deviceRow_dropDevice] at hrow
    split at hrow
    · cases hrow
    · exact hbase.rows u' d' entry hrow
  | dropRevoked _ u d =>
    refine ⟨fun u' d' entry hrow => ?_, hbase.fresh⟩
    have hrow : (e.dropDevice u d).deviceRow u' d' = some entry := hrow
    rw [deviceRow_dropDevice] at hrow
    split at hrow
    · cases hrow
    · exact hbase.rows u' d' entry hrow
  | _ => exact ⟨hbase.rows, hbase.fresh⟩

end RcqServer.Sessions
