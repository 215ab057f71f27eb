import RcqServer.Sessions.Lineage

/-!
# Young sessions and the registry

`revoker_gate` takes a caller that is not in the registry for an install, which may revoke anything.
So a linked session has to be in the registry for as long as its token is accepted.  The listing of
the devices removes entries whose token has not been used within a quarter of an hour; the token
stays good.  A revocation removes the entry before it puts the device on the denylist.

`Covered` says where a linked device is, from its registration until its token has expired: its
registration or its revocation is under way, or it is listed, or it is on the denylist.
-/

namespace RcqServer.Sessions

open ReadCommitted List Option Table Expiring

namespace Listed

/-- Where a device is that was linked at `born`. -/
inductive Covered (e : Ext) (u : Uin) (d : DeviceId) (born : Time) : Prop
  | linking (mem : (u, d) ∈ e.linking) (row : e.now = born → (e.deviceRow u d).isSome)
  | revoking (mem : (u, d) ∈ e.revoking)
  | listed (kept : Keeps (fun rows => (rows.get d).isSome) (born + deviceTtl)
      (e.devices.get u))
  | denied (kept : Keeps (d ∈ ·) (born + deviceTtl) (e.revoked.get u))

/-- The target of a revocation is not older than the time. -/
def NotOlder (e : Ext) (u : Uin) (born : Time) : Target → Prop
  | .device d => ∃ b, e.births.get (u, d) = some b ∧ born ≤ b
  | .slot createdAt => born ≤ createdAt

structure Inv (cfg : Config) (e : Ext) : Prop where
  past : ∀ k born, e.births.get k = some born → born ≤ e.now
  covered : ∀ u d born, e.births.get (u, d) = some born → e.now < born + deviceTtl →
    Covered e u d born
  tokens : ∀ i ∈ e.issued, i.token.linked → ∃ d, i.token.device = some d ∧
    e.Linked i.token.uin d i.token.iat ∧ i.token.exp = i.token.iat + deviceTtl
  passes : ∀ pass ∈ e.devicePasses, pass.token.linked → pass.listed
  gates : ∀ pass ∈ e.gatePasses, pass.token.linked →
    pass.at_ < pass.token.iat + cfg.revokeCooldown →
    NotOlder e pass.token.uin pass.token.iat pass.target

/-- The device of the token is being revoked. -/
def beingRevoked (e : Ext) (token : Token) : Bool :=
  token.device.any fun d => decide ((token.uin, d) ∈ e.revoking)

/-- What the steps of a link, a listing, a revocation and a check have to find. -/
def inTime (e : Ext) : Label → Bool
  | .expireDevices born => decide (e.now = born)
  | .mintLinked born => decide (e.now = born)
  | .sweep u d => (e.deviceRow u d).all fun entry => decide (entry.createdAt + deviceTtl ≤ e.now)
  | .expireDenylist u d => decide (d ∈ e.denylist u)
  | .denylist token => !token.linked || decide (e.now < token.exp) && !beingRevoked e token
  | .gate token => !token.linked || decide (e.now < token.exp) && !beingRevoked e token &&
      token.device.all fun d => decide (d ∉ e.denylist token.uin)
  | _ => true

variable {cfg : Config} {r : Request} {l : Label} {e e' : Ext} {u u' : Uin} {d d' : DeviceId}
  {born : Time} {label : String}

/-! ## Covered -/

theorem Covered.congr (h : Covered e u d born) (hnow : e'.now = e.now)
    (hdevices : e'.devices = e.devices) (hrevoked : e'.revoked = e.revoked)
    (hlinking : ∀ k ∈ e.linking, k ∈ e'.linking) (hrevoking : e'.revoking = e.revoking) :
    Covered e' u d born := by
  have hrow : e'.deviceRow u d = e.deviceRow u d := by
    rw [Ext.deviceRow, Ext.deviceRow, Ext.registry, Ext.registry, hnow, hdevices]
  cases h with
  | linking hmem hsome => exact .linking (hlinking _ hmem) fun hb => hrow ▸ hsome (hnow ▸ hb)
  | revoking hmem => exact .revoking (hrevoking ▸ hmem)
  | listed hkept => exact .listed (hdevices ▸ hkept)
  | denied hkept => exact .denied (hrevoked ▸ hkept)

/-- A command on a registry that keeps what it has to keep. -/
theorem Covered.onDevices (h : Covered e u d born)
    (hlinking : (u, d) ∈ e.linking → (u, d) ∈ e'.linking ∧ e'.now = e.now ∧
      ((e.deviceRow u d).isSome → (e'.deviceRow u d).isSome))
    (hrevoking : (u, d) ∈ e.revoking → (u, d) ∈ e'.revoking) (hrevoked : e'.revoked = e.revoked)
    (hdevices : Keeps (fun rows => (rows.get d).isSome) (born + deviceTtl)
      (e.devices.get u) → Covered e' u d born) : Covered e' u d born := by
  cases h with
  | linking hmem hrow =>
    obtain ⟨hmem, hnow, hkeep⟩ := hlinking hmem
    exact .linking hmem fun hborn => hkeep (hrow (hnow ▸ hborn))
  | revoking hmem => exact .revoking (hrevoking hmem)
  | listed hkept => exact hdevices hkept
  | denied hkept => exact .denied (hrevoked ▸ hkept)

/-- A row that is kept is there. -/
theorem deviceRow_of_keeps (hnow : e.now < born + deviceTtl)
    (h : Keeps (fun rows => (rows.get d).isSome) (born + deviceTtl) (e.devices.get u)) :
    (e.deviceRow u d).isSome := by
  obtain ⟨rows, hread, hsome⟩ := h.read hnow
  rw [Ext.deviceRow, Ext.registry, hread]
  exact hsome

theorem denylist_of_keeps (hnow : e.now < born + deviceTtl)
    (h : Keeps (d ∈ ·) (born + deviceTtl) (e.revoked.get u)) : d ∈ e.denylist u := by
  obtain ⟨ids, hread, hmem⟩ := h.read hnow
  rw [Ext.denylist, hread]
  exact hmem

/-- A linked device that is neither being linked nor being revoked nor denied is listed. -/
theorem Covered.row (h : Covered e u d born) (hnow : e.now < born + deviceTtl)
    (hlinking : (u, d) ∉ e.linking) (hrevoking : (u, d) ∉ e.revoking)
    (hdenied : d ∉ e.denylist u) : (e.deviceRow u d).isSome := by
  cases h with
  | linking hmem _ => exact absurd hmem hlinking
  | revoking hmem => exact absurd hmem hrevoking
  | listed hkept => exact deviceRow_of_keeps hnow hkept
  | denied hkept => exact absurd (denylist_of_keeps hnow hkept) hdenied

/-- Another field of the hash stays when one is deleted. -/
theorem withoutField_of_ne {rows : Table DeviceId DeviceEntry} (hne : d' ≠ d)
    (hrow : (rows.get d').isSome) :
    ∃ rows' ∈ withoutField d (some rows), (rows'.get d').isSome := by
  have hget : (rows.set d none).get d' = rows.get d' := get_set_ne rows hne none
  refine ⟨rows.set d none, ?_, by rw [hget]; exact hrow⟩
  refine filter_eq_some_iff.mpr ⟨rfl, ?_⟩
  cases hrows : (rows.set d none).rows with
  | nil =>
    rw [← hget, get_eq_none_of_rows hrows] at hrow
    cases hrow
  | cons x xs => rfl

/-- A device stays where it is when another entry is dropped. -/
theorem Covered.dropDevice (h : Covered e u' d' born) (hnow : e.now < born + deviceTtl)
    (hne : (u', d') ≠ (u, d)) : Covered (e.dropDevice u d) u' d' born := by
  have hkey : ¬(u' = u ∧ d' = d) := fun hkey => hne (Prod.ext hkey.1 hkey.2)
  refine h.onDevices (fun hmem => ⟨hmem, rfl, fun hrow => ?_⟩) id rfl fun hkept => .listed ?_
  · rw [deviceRow_dropDevice, if_neg hkey]
    exact hrow
  · change Keeps _ _ ((e.devices.set u _).get u')
    rw [get_set]
    split
    · rename_i hu
      subst hu
      exact hkept.alter hnow fun rows hrow => withoutField_of_ne (fun hd => hkey ⟨rfl, hd⟩) hrow
    · exact hkept

theorem Covered.setDevice (h : Covered e u' d' born) (hnow : e.now < born + deviceTtl)
    (entry : DeviceEntry) : Covered (e.setDevice u d entry) u' d' born := by
  refine h.onDevices (fun hmem => ⟨hmem, rfl, fun hrow => ?_⟩) id rfl fun hkept => .listed ?_
  · rw [deviceRow_setDevice]
    split
    · rfl
    · exact hrow
  · change Keeps _ _ ((e.devices.set u _).get u')
    rw [get_set]
    split
    · rename_i hu
      subst hu
      refine hkept.alter hnow fun rows hrow => ⟨_, rfl, ?_⟩
      rw [getD_some, get_set]
      split
      · rfl
      · exact hrow
    · exact hkept

/-- The expiry of the registry is set: a device whose registration this completes is listed now. -/
theorem Covered.renewDevices (h : Covered e u' d' born) (hnow : e.now < born + deviceTtl)
    (hpast : born ≤ e.now) (hborn : (u', d') = (u, d) → e.now = born) :
    Covered (e.renewDevices u d) u' d' born := by
  have hdevices : ∀ k, (e.renewDevices u d).devices.get k =
      if k = u then Expiring.expire e.now deviceTtl (e.devices.get u) else e.devices.get k :=
    fun k => get_set e.devices u k _
  cases h with
  | linking hmem hrow =>
    by_cases hkey : (u', d') = (u, d)
    · obtain ⟨rfl, rfl⟩ := Prod.mk.inj hkey
      have hsome := hrow (hborn rfl)
      refine .listed ?_
      rw [hdevices, if_pos rfl]
      unfold Ext.deviceRow Ext.registry at hsome
      cases hread : Expiring.read e.now (e.devices.get u') with
      | none =>
        rw [hread, getD_none, get_empty] at hsome
        cases hsome
      | some rows =>
        rw [hread, getD_some] at hsome
        rw [← hborn rfl]
        exact keeps_expire hread hsome deviceTtl
    · refine .linking (mem_filter.mpr ⟨hmem, decide_eq_true hkey⟩) fun hb => ?_
      rw [deviceRow_renewDevices]
      exact hrow hb
  | revoking hmem => exact .revoking hmem
  | listed hkept =>
    refine .listed ?_
    rw [hdevices]
    split
    · rename_i hu
      subst hu
      exact hkept.expire hnow (Nat.add_le_add_right hpast _)
    · exact hkept
  | denied hkept => exact .denied hkept

/-- A command on a denylist that keeps what it has to keep. -/
theorem Covered.onRevoked (h : Covered e u' d' born)
    {f : Option (Entry (List DeviceId)) → Option (Entry (List DeviceId))}
    (hf : Keeps (d' ∈ ·) (born + deviceTtl) (e.revoked.get u') →
      Keeps (d' ∈ ·) (born + deviceTtl) (f (e.revoked.get u'))) :
    Covered (e.onRevoked u f) u' d' born := by
  cases h with
  | linking hmem hrow => exact .linking hmem hrow
  | revoking hmem => exact .revoking hmem
  | listed hkept => exact .listed hkept
  | denied hkept =>
    refine .denied ?_
    change Keeps _ _ ((e.revoked.set u _).get u')
    rw [get_set]
    split
    · rename_i hu
      subst hu
      exact hf hkept
    · exact hkept

/-! ## Steps -/

theorem NotOlder.grows (hgrows : Grows e e') {target : Target} (h : NotOlder e u born target) :
    NotOlder e' u born target := by
  cases target with
  | device d =>
    obtain ⟨b, hbirth, hle⟩ := h
    exact ⟨b, hgrows.births _ b hbirth, hle⟩
  | slot createdAt => exact h

/-- A step that mints nothing, registers nothing and lets nothing pass. -/
theorem Inv.move (h : Inv cfg e) (hgrows : Grows e e') (hissued : e'.issued = e.issued)
    (hpasses : e'.devicePasses = e.devicePasses) (hgates : e'.gatePasses = e.gatePasses)
    (hbirths : e'.births = e.births)
    (hcovered : ∀ u d born, e.births.get (u, d) = some born → born ≤ e.now →
      e.now < born + deviceTtl → Covered e u d born → Covered e' u d born) : Inv cfg e' where
  past k b hb := (h.past k b (hbirths ▸ hb)).trans hgrows.now
  covered u d b hb hlt := by
    have hbirth : e.births.get (u, d) = some b := hbirths ▸ hb
    have hnow : e.now < b + deviceTtl := hgrows.now.trans_lt hlt
    exact hcovered u d b hbirth (h.past _ b hbirth) hnow (h.covered u d b hbirth hnow)
  tokens i hi hlinked := by
    obtain ⟨d, hd, hlink, hexp⟩ := h.tokens i (hissued ▸ hi) hlinked
    exact ⟨d, hd, stable_linked _ _ _ e e' hgrows hlink, hexp⟩
  passes := hpasses ▸ h.passes
  gates pass hmem hlinked hyoung := (h.gates pass (hgates ▸ hmem) hlinked hyoung).grows hgrows

theorem Inv.mint (h : Inv cfg e) {i : Issue} (hi : i.token.linked → ∃ d, i.token.device = some d ∧
      e.Linked i.token.uin d i.token.iat ∧ i.token.exp = i.token.iat + deviceTtl) :
    Inv cfg { e with issued := i :: e.issued } :=
  { h with
    covered u d b hb hlt := (h.covered u d b hb hlt).congr rfl rfl rfl (fun _ h => h) rfl
    tokens j hj hlinked := by
      have hlinks : ∀ u d b, e.Linked u d b →
          Ext.Linked { e with issued := i :: e.issued } u d b := fun _ _ _ h => ⟨h.birth, h.complete⟩
      rcases mem_cons.mp hj with rfl | hj
      · obtain ⟨d, hd, hlink, hexp⟩ := hi hlinked
        exact ⟨d, hd, hlinks _ _ _ hlink, hexp⟩
      · obtain ⟨d, hd, hlink, hexp⟩ := h.tokens j hj hlinked
        exact ⟨d, hd, hlinks _ _ _ hlink, hexp⟩ }

theorem Inv.link (h : Inv cfg e) (hgrows : Grows e (e.link u label)) :
    Inv cfg (e.link u label) where
  past k b hb := by
    have hset : (e.births.set (u, e.nextDevice) (some e.now)).get k = some b := hb
    rw [get_set] at hset
    split at hset
    · exact (some.inj hset).ge
    · exact h.past k b hset
  covered u' d' b hb hlt := by
    have hset : (e.births.set (u, e.nextDevice) (some e.now)).get (u', d') = some b := hb
    rw [get_set] at hset
    split at hset
    · -- the device that is registered now
      rename_i hkey
      obtain ⟨rfl, rfl⟩ := Prod.mk.inj hkey
      refine .linking mem_cons_self fun _ => ?_
      have hrow := deviceRow_setDevice e u' u' e.nextDevice e.nextDevice ⟨label, e.now, true⟩
      rw [if_pos ⟨rfl, rfl⟩] at hrow
      exact isSome_of_eq_some hrow
    · have hcovered : Covered (e.setDevice u e.nextDevice ⟨label, e.now, true⟩) u' d' b :=
        (h.covered u' d' b hset hlt).setDevice hlt _
      exact hcovered.congr rfl rfl rfl (fun _ h => mem_cons_of_mem _ h) rfl
  tokens i hi hlinked := by
    obtain ⟨d, hd, hlink, hexp⟩ := h.tokens i hi hlinked
    exact ⟨d, hd, stable_linked _ _ _ e _ hgrows hlink, hexp⟩
  passes := h.passes
  gates pass hmem hlinked hyoung := (h.gates pass hmem hlinked hyoung).grows hgrows

/-- The entry of a linked device that goes with its token. -/
theorem Inv.row (h : Inv cfg e) (hbase : Base e) {token : Token} (hsigned : e.Signed token)
    (hdevice : token.device = some d) (hlinked : token.linked) (hexp : e.now < token.exp)
    (hrevoking : (token.uin, d) ∉ e.revoking) (hdenied : d ∉ e.denylist token.uin) :
    ∃ entry, e.deviceRow token.uin d = some entry ∧ entry.createdAt = token.iat := by
  obtain ⟨i, hi, rfl⟩ := hsigned
  obtain ⟨d₁, hd₁, hlink, hends⟩ := h.tokens i hi hlinked
  obtain rfl : d₁ = d := some.inj (hd₁.symm.trans hdevice)
  rw [hends] at hexp
  have hrow := (h.covered _ _ _ hlink.birth hexp).row hexp hlink.complete hrevoking hdenied
  obtain ⟨entry, hentry⟩ := isSome_iff_exists.mp hrow
  have hbirth := hbase.rows _ _ _ hentry
  rw [hlink.birth] at hbirth
  exact ⟨entry, hentry, (some.inj hbirth).symm⟩

/-- Passes are put on record. -/
theorem Inv.record (h : Inv cfg e) {devicePasses : List DevicePass} {gatePasses : List GatePass}
    (hpasses : ∀ pass ∈ devicePasses, pass.token.linked → pass.listed)
    (hgates : ∀ pass ∈ gatePasses, pass.token.linked →
      pass.at_ < pass.token.iat + cfg.revokeCooldown →
      NotOlder e pass.token.uin pass.token.iat pass.target) :
    Inv cfg { e with devicePasses := devicePasses, gatePasses := gatePasses } where
  past := h.past
  covered u d b hb hlt := (h.covered u d b hb hlt).congr rfl rfl rfl (fun _ h => h) rfl
  tokens i hi hlinked := by
    obtain ⟨d, hd, hlink, hexp⟩ := h.tokens i hi hlinked
    exact ⟨d, hd, ⟨hlink.birth, hlink.complete⟩, hexp⟩
  passes := hpasses
  gates := hgates

/-- A linked device's token passes only while its device is listed. -/
theorem Inv.devicePass (h : Inv cfg e) (hbase : Base e) {token : Token} (hsigned : e.Signed token)
    (hdevice : token.device = some d) (hpass : e.passesDevice token d)
    (htime : token.linked → e.now < token.exp ∧ (token.uin, d) ∉ e.revoking) :
    Inv cfg { e with devicePasses :=
      ⟨token, e.revocations, (e.deviceRow token.uin d).isSome⟩ :: e.devicePasses } := by
  refine h.record (fun pass hmem hlinked => ?_) h.gates
  rcases mem_cons.mp hmem with rfl | hmem
  · obtain ⟨hexp, hrevoking⟩ := htime hlinked
    have hdenied : d ∉ e.denylist token.uin := by
      simpa [Ext.passesDevice] using hpass
    obtain ⟨entry, hentry, -⟩ := h.row hbase hsigned hdevice hlinked hexp hrevoking hdenied
    exact isSome_of_eq_some hentry
  · exact h.passes pass hmem hlinked

/-- The gate lets a young session pass only to something that is not older. -/
theorem Inv.gatePass (h : Inv cfg e) (hbase : Base e) {token : Token} {target : Target}
    {targetBorn : Option Time} (hsigned : e.Signed token) (hdevice : token.device = some d)
    (hborn : e.BornAt token.uin target targetBorn) (hpass : e.mayRevoke cfg token.uin d targetBorn)
    (htime : token.linked → e.now < token.exp ∧ (token.uin, d) ∉ e.revoking ∧
      d ∉ e.denylist token.uin) :
    Inv cfg { e with gatePasses := ⟨token, target, e.now⟩ :: e.gatePasses } := by
  refine h.record h.passes fun pass hmem hlinked hyoung => ?_
  rcases mem_cons.mp hmem with rfl | hmem
  · obtain ⟨hexp, hrevoking, hdenied⟩ := htime hlinked
    obtain ⟨entry, hentry, hcreated⟩ :=
      h.row hbase hsigned hdevice hlinked hexp hrevoking hdenied
    have hyoung : e.now < token.iat + cfg.revokeCooldown := hyoung
    simp only [Ext.mayRevoke, hentry, hcreated, Bool.or_eq_true, decide_eq_true_eq] at hpass
    rcases hpass with hold | hyounger
    · exact absurd hold (Nat.not_le.mpr hyoung)
    · obtain ⟨b, rfl, hle⟩ : ∃ b, targetBorn = some b ∧ token.iat ≤ b := by
        cases targetBorn with
        | none => cases hyounger
        | some b => exact ⟨b, rfl, by simpa using hyounger⟩
      cases target with
      | device d' => exact ⟨b, hborn b rfl, hle⟩
      | slot createdAt =>
        obtain rfl : b = createdAt := some.inj hborn
        exact hle
  · exact h.gates pass hmem hlinked hyoung

/-- An entry whose token has expired, or that is not there, is dropped. -/
theorem Inv.sweep (h : Inv cfg e) (hbase : Base e) (hgrows : Grows e (e.dropDevice u d))
    (htime : ∀ entry, e.deviceRow u d = some entry → entry.createdAt + deviceTtl ≤ e.now) :
    Inv cfg (e.dropDevice u d) := by
  refine h.move hgrows rfl rfl rfl rfl fun u' d' b hb _ hlt hcovered => ?_
  by_cases hkey : (u', d') = (u, d)
  · obtain ⟨rfl, rfl⟩ := Prod.mk.inj hkey
    have hnone : e.deviceRow u' d' = none := by
      cases hrow : e.deviceRow u' d' with
      | none => rfl
      | some entry =>
        have hbirth := hbase.rows _ _ _ hrow
        rw [hb] at hbirth
        obtain rfl := some.inj hbirth
        exact absurd (htime entry hrow) (Nat.not_le.mpr hlt)
    cases hcovered with
    | linking hmem hrow =>
      refine .linking hmem fun hnow => ?_
      rw [hnone] at hrow
      cases hrow hnow
    | revoking hmem => exact .revoking hmem
    | listed hkept =>
      have hrow := deviceRow_of_keeps hlt hkept
      rw [hnone] at hrow
      cases hrow
    | denied hkept => exact .denied hkept
  · exact hcovered.dropDevice hlt hkey

theorem Inv.dropRevoked (h : Inv cfg e)
    (hgrows : Grows e { e.dropDevice u d with revoking := (u, d) :: e.revoking }) :
    Inv cfg { e.dropDevice u d with revoking := (u, d) :: e.revoking } := by
  refine h.move hgrows rfl rfl rfl rfl fun u' d' b _ _ hlt hcovered => ?_
  by_cases hkey : (u', d') = (u, d)
  · exact .revoking (hkey ▸ mem_cons_self)
  · cases hcovered.dropDevice hlt hkey with
    | linking hmem hrow => exact .linking hmem hrow
    | revoking hmem => exact .revoking (mem_cons_of_mem _ hmem)
    | listed hkept => exact .listed hkept
    | denied hkept => exact .denied hkept

/-- The expiry of the denylist is set: a device whose revocation this completes is on it now. -/
theorem Inv.expireDenylist (h : Inv cfg e) (hmem : d ∈ e.denylist u)
    {e' : Ext} (he' : e' = { e.onRevoked u (Expiring.expire e.now deviceTtl) with
      revoking := e.revoking.filter (· ≠ (u, d))
      revocations := ⟨u, d, e.now⟩ :: e.revocations })
    (hgrows : Grows e e') : Inv cfg e' := by
  subst he'
  refine h.move hgrows rfl rfl rfl rfl fun u' d' b _ hpast hlt hcovered => ?_
  by_cases hkey : (u', d') = (u, d)
  · obtain ⟨rfl, rfl⟩ := Prod.mk.inj hkey
    refine .denied ?_
    change Keeps _ _ ((e.revoked.set u' _).get u')
    rw [get_set_self]
    unfold Ext.denylist at hmem
    cases hread : Expiring.read e.now (e.revoked.get u') with
    | none => simp [hread] at hmem
    | some ids =>
      rw [hread, getD_some] at hmem
      exact (keeps_expire hread hmem deviceTtl).mono (Nat.add_le_add_right hpast _)
  · have hexpired : Covered (e.onRevoked u (Expiring.expire e.now deviceTtl)) u' d' b :=
      hcovered.onRevoked fun hkept => hkept.expire hlt (Nat.add_le_add_right hpast _)
    cases hexpired with
    | linking hmem hrow => exact .linking hmem hrow
    | revoking hmem => exact .revoking (mem_filter.mpr ⟨hmem, decide_eq_true hkey⟩)
    | listed hkept => exact .listed hkept
    | denied hkept => exact .denied hkept

theorem Inv.tick (h : Inv cfg e) (seconds : ℕ)
    (hgrows : Grows e { e with now := e.now + seconds }) :
    Inv cfg { e with now := e.now + seconds } := by
  refine h.move hgrows rfl rfl rfl rfl fun u d b _ hpast _ hcovered => ?_
  cases hcovered with
  | linking hmem hrow =>
    refine .linking hmem fun hb => ?_
    -- the time of the registration has not passed, so no time has
    have hb : e.now + seconds = b := hb
    have hnow : e.now + seconds = e.now := (hb.le.trans hpast).antisymm (Nat.le_add_right _ _)
    have hsame : Ext.deviceRow { e with now := e.now + seconds } u d = e.deviceRow u d := by
      rw [Ext.deviceRow, Ext.deviceRow, Ext.registry, Ext.registry, hnow]
    rw [hsame]
    exact hrow (hnow.symm.trans hb)
  | revoking hmem => exact .revoking hmem
  | listed hkept => exact .listed hkept
  | denied hkept => exact .denied hkept

theorem Inv.step (h : Inv cfg e) (hbase : Base e) (hdoes : Does cfg r l e e')
    (htime : inTime e l) : Inv cfg e' := by
  have hgrows := hdoes.grows hbase
  have hlinks : ∀ {token : Token} {d : DeviceId}, token.device = some d → token.linked →
      (e.now < token.exp ∧ (token.uin, d) ∉ e.revoking ↔
        (decide (e.now < token.exp) && !beingRevoked e token) = true) := by
    intro token d hdevice _
    simp [beingRevoked, hdevice]
  cases hdoes with
  | quiet hq =>
    refine h.move hgrows hq.issued hq.devicePasses hq.gatePasses hq.births
      fun u d b _ _ _ hcovered => ?_
    exact hcovered.congr hq.now hq.devices hq.revoked (fun k hk => hq.linking ▸ hk) hq.revoking
  | tick _ seconds => exact h.tick seconds hgrows
  | mint hphone _ => exact h.mint fun hlinked => by simp [hphone] at hlinked
  | @mintLinked _ u d born epoch hlink =>
    obtain rfl : e.now = born := of_decide_eq_true htime
    exact h.mint fun _ => ⟨d, rfl, hlink, rfl⟩
  | link _ u label => exact h.link hgrows
  | @renew _ u d born hbirth =>
    refine h.move hgrows rfl rfl rfl rfl fun u' d' b hb hpast hlt hcovered => ?_
    refine hcovered.renewDevices hlt hpast fun hkey => ?_
    rw [hkey, hbirth] at hb
    exact (of_decide_eq_true htime).trans (some.inj hb)
  | seen _ =>
    exact h.move hgrows rfl rfl rfl rfl fun u' d' b _ _ hlt hcovered => hcovered.setDevice hlt _
  | sweep _ u d =>
    refine h.sweep hbase hgrows fun entry hrow => ?_
    rw [inTime, hrow, all_some] at htime
    exact of_decide_eq_true htime
  | dropRevoked _ u d => exact h.dropRevoked hgrows
  | deny _ u d =>
    refine h.move hgrows rfl rfl rfl rfl fun u' d' b _ _ hlt hcovered => ?_
    exact hcovered.onRevoked fun hkept =>
      hkept.alter hlt fun ids hmem => ⟨_, rfl, mem_insert_of_mem hmem⟩
  | expireDenylist _ u d => exact h.expireDenylist (of_decide_eq_true htime) rfl hgrows
  | devicePass hsigned hdevice hpass =>
    refine h.devicePass hbase hsigned hdevice hpass fun hlinked => ?_
    simp only [inTime, hlinked, Bool.not_true, Bool.false_or] at htime
    exact (hlinks hdevice hlinked).mpr htime
  | gatePass hsigned hdevice hborn hpass =>
    refine h.gatePass hbase hsigned hdevice hborn hpass fun hlinked => ?_
    simp only [inTime, hlinked, Bool.not_true, Bool.false_or, Bool.and_eq_true (_ && _)] at htime
    obtain ⟨hexp, hrevoking⟩ := (hlinks hdevice hlinked).mpr htime.1
    exact ⟨hexp, hrevoking, by simpa [hdevice] using htime.2⟩

end Listed

/-- A link takes no time from its entry to its token; a listing removes no entry whose token could
still be used; a revocation's `EXPIRE` finds its device on the denylist; and a linked device is not
checked, and does not stand at the gate, while its own revocation is under way or done, or after its
token has expired. -/
def RegistryInTime (w : World) : Action Request → Prop
  | .step n => ∀ x ∈ w.upcoming n, Listed.inTime w.shared.ext x.2
  | _ => True

instance : DecidableRel RegistryInTime := by
  rintro w (_ | _) <;> unfold RegistryInTime <;> infer_instance

/-- **Young sessions do not throw out their elders.**  In every run in which the registry is kept in
time, a linked session whose token is younger than the cooldown is let through to revoke only what
is not older than itself; a linked device's token passes only while its device is in the registry;
and the device of every linked token that has not expired is listed, denied or just being revoked. -/
theorem young_session_revokes_no_elder (cfg : Config) (verify : Verify) {db : Db} {now : Time}
    {w : World} (hrun : World.Run (handler cfg verify) RegistryInTime (.fresh db (.initial now)) w) :
    (∀ pass ∈ w.shared.ext.gatePasses, pass.token.linked →
      pass.at_ < pass.token.iat + cfg.revokeCooldown →
      Listed.NotOlder w.shared.ext pass.token.uin pass.token.iat pass.target) ∧
    (∀ pass ∈ w.shared.ext.devicePasses, pass.token.linked → pass.listed) ∧
    ∀ i ∈ w.shared.ext.issued, i.token.linked → w.shared.ext.decodes i.token →
      ∃ d, i.token.device = some d ∧ ((w.shared.ext.deviceRow i.token.uin d).isSome ∨
        d ∈ w.shared.ext.denylist i.token.uin ∨ (i.token.uin, d) ∈ w.shared.ext.revoking) := by
  have hinit : Listed.Inv cfg (.initial now) :=
    ⟨nofun, nofun, nofun,
      nofun, nofun⟩
  have hinv : Listed.Inv cfg w.shared.ext :=
    ext_inv_of_run hinit (fun w n r l e' _ hok hn hbase hdoes h =>
      h.step hbase hdoes (hok (r, l) hn)) hrun
  refine ⟨hinv.gates, hinv.passes, fun i hi hlinked hdecodes => ?_⟩
  obtain ⟨d, hd, hlink, hexp⟩ := hinv.tokens i hi hlinked
  have hlt : w.shared.ext.now < i.token.iat + deviceTtl := by
    simp only [Ext.decodes, Token.expired, hlinked, Bool.true_and, Bool.and_eq_true,
      Bool.not_eq_true', decide_eq_false_iff_not, Nat.not_le] at hdecodes
    exact hdecodes.2.trans_eq hexp
  refine ⟨d, hd, ?_⟩
  by_contra hnone
  simp only [not_or] at hnone
  have hcovered := hinv.covered _ _ _ hlink.birth hlt
  exact hnone.1 (hcovered.row hlt hlink.complete hnone.2.2 hnone.2.1)

/-- Two browsers, linked a minute apart.  The younger one tries to revoke the older one and is told
to wait; the older one revokes the younger. -/
def twoBrowsers : List (Action Request) :=
  let phone := issueToken 1000 1 0 (some 9)
  .start (Request.login 1 (some 9)) :: steps 0 10 ++ .start (Request.linkDevice phone "Web") :: steps 1 20 ++
    .start (Request.tick 60) :: steps 2 3 ++ .start (Request.linkDevice phone "Desktop") :: steps 3 20 ++
    .start (Request.revokeDevice (issueDeviceToken 1060 1 1 0) 0) :: steps 4 20 ++
    .start (Request.revokeDevice browser 1) :: steps 5 20

theorem young_session_revokes_no_elder_browsers :
    let w := (World.fresh emptyDb (.initial 1000) : World).play (handler defaults noProofs)
      twoBrowsers
    w.answer? 4 = none ∧ w.answer? 5 = some .done ∧
      w.shared.ext.gatePasses.map (fun pass => (pass.token, pass.target)) =
        [(browser, .device 1)] ∧
      ∀ pass ∈ w.shared.ext.gatePasses, pass.token.linked →
        pass.at_ < pass.token.iat + defaults.revokeCooldown →
        Listed.NotOlder w.shared.ext pass.token.uin pass.token.iat pass.target := by
  intro w
  have hrun : World.Run (handler defaults noProofs) RegistryInTime (World.fresh emptyDb
      (.initial 1000)) w := .of_play _ (by decide +kernel)
  exact ⟨by decide +kernel, by decide +kernel, by decide +kernel,
    (young_session_revokes_no_elder defaults noProofs hrun).1⟩

/-- What the browser gets that is linked a minute after the phone has come in. -/
abbrev idleBrowser : Token := issueDeviceToken 1060 1 0 0

/-- The browser lets a quarter of an hour pass, until a look at the list of devices has removed its
entry, and then revokes the phone. -/
def idleBrowserSchedule : List (Action Request) :=
  let phone := issueToken 1000 1 0 (some 9)
  .start (Request.login 1 (some 9)) :: steps 0 10 ++ .start (Request.tick 60) :: steps 1 3 ++
    .start (Request.linkDevice phone "Web") :: steps 2 20 ++ .start (Request.tick 901) :: steps 3 3 ++
    .start (Request.listDevices phone) :: steps 4 20 ++
    .start (Request.revokeDevice idleBrowser 9) :: steps 5 20 ++
    .start (Request.check idleBrowser) :: steps 6 10

/-- The phone is out; the browser, 901 seconds old, is neither listed nor denied and goes on. -/
theorem swept_browser_revokes_phone :
    let w := (World.fresh emptyDb (.initial 1000) : World).play (handler defaults noProofs)
      idleBrowserSchedule
    World.Run (handler defaults noProofs) (fun _ _ => True) (.fresh emptyDb (.initial 1000)) w ∧
      idleBrowser.linked ∧ w.shared.ext.now < idleBrowser.iat + defaults.revokeCooldown ∧
      w.answer? 5 = some .done ∧ w.shared.ext.revocations = [⟨1, 9, 1961⟩] ∧
      w.answer? 6 = some (.account 1) ∧ w.shared.ext.deviceRow 1 0 = none ∧
      0 ∉ w.shared.ext.denylist 1 :=
  ⟨.of_play _ (by decide +kernel), rfl, by decide +kernel⟩

end RcqServer.Sessions
