import RcqServer.Gate.Invites
import RcqServer.ReadCommitted.Serial

/-!
# Redeems and revocations

Every request of the gate keeps what `Invites.Inv` says, as long as a device that has a row presents the
invite that the row was minted from.
-/

namespace RcqServer.Gate.Invites

open ReadCommitted Outline List World Prog

variable {s s' : State} {ws : List Write} {r : Request}

/-- A program that writes no rows. -/
theorem framed : outline.Framed r (fun _ : Write => False) Mild fun ws _ => ws = [] where
  stable _ _ _ _ h _ _ := h
  stmt l ws s new e hws hinv hnew he := by
    have hnil : new = [] := eq_nil_iff_forall_not_mem.mpr hnew
    rw [hws, hnil]
    exact ⟨step_mild hinv he, rfl⟩
  commit l ws s e hws hinv he := by
    rw [hws]
    refine ⟨step_flags (.nil s) he hinv ?_, rfl⟩
    exact nofun
  rollback _ _ _ := rfl

theorem mild_refl (e : Ext) : Mild e e := mild_of_eq rfl rfl le_rfl rfl

theorem cache_within (down : Bool) (token : ℕ) (m : Meta) :
    (Gate.cache down token m).Within (fun _ => False) Mild :=
  Within.onlyIf (Within.effect fun _ _ => mild_of_eq rfl rfl le_rfl rfl)

theorem gateCheck_within (auth : Option Credential) (down : Bool) :
    (gateCheck auth down).Within (fun _ => False) Mild := by
  unfold gateCheck
  split
  · exact trivial
  · exact trivial
  · refine Within.bind ?_ ?_
    · refine Within.bind (Within.read mild_refl) ?_
      rintro ⟨cached, started⟩
      cases cached with
      | some m => exact trivial
      | none =>
        refine Within.bind (Within.read mild_refl) fun row => ?_
        cases row with
        | none => exact trivial
        | some found => exact Within.bind (cache_within _ _ _) fun _ => trivial
    · rintro ⟨found, started⟩
      cases found with
      | none => exact trivial
      | some m =>
        refine fun _ e => ⟨by simp, ?_, trivial⟩
        dsimp only
        split
        · exact mild_of_eq rfl rfl le_rfl rfl
        · exact mild_refl e

theorem evict_within (tokens : List ℕ) (down : Bool) :
    (evict tokens down).Within (fun _ => False) Mild :=
  Within.onlyIf (Within.effect fun _ _ => mild_of_eq rfl rfl le_rfl rfl)

/-- What is left to do when nothing is pending any more. -/
theorem wp_quiet {α : Type} {p : Handler α} (hp : p.Within (fun _ => False) Mild) :
    outline.Safe r p [] s :=
  safe_within framed hp rfl

theorem wp_draw (owner : Owner) :
    outline.wp r (draw owner) (fun out ws s => ws = [] ∧ s.ext.owners out.1 = some owner) [] s := by
  intro s' _ hinv _
  refine ⟨step_mild hinv ?_, rfl, owners_draw _ owner⟩
  exact ⟨hinv.fresh.keeps_draw owner, fun h => h.draw owner, le_rfl, rfl⟩

theorem cached_quiet (token : ℕ) (down : Bool) :
    ((Gate.cache down token ⟨false, none, none, 0⟩).bind fun _ => ret (RedeemOut.minted token)).Within
      (fun _ => False) Mild :=
  Within.bind (cache_within _ _ _) fun _ => trivial

/-- A redeem by a device that has a row. -/
theorem finish_remint_safe {dev : Dev} {invite token : ℕ} {down : Bool} {row : Device}
    (hrow : s.db.devices.get dev = some row) (hparent : row.parentId = invite)
    (howner : s.ext.owners token = some (.device dev invite)) :
    outline.Safe r (finish dev invite token down)
      [.device dev (some { row with tokenHash := token })] s := by
  refine wp_commit fun s' hrely hinv _ => ⟨?_, wp_quiet (cached_quiet token down)⟩
  have hrow' := hrely.devices dev (mem_singleton.mpr rfl)
  exact step_remint (hrow'.trans hrow) hparent (hrely.owners _ _ howner) hinv

/-- A redeem by a device without a row. -/
theorem finish_mint_safe {dev : Dev} {invite token presented : ℕ} {now : Time} {down : Bool}
    {irow : Issued} (hnone : s.db.devices.get dev = none)
    (hissued : s.db.issued.get invite = some irow) (hcons : irow.consumable presented now)
    (howner : s.ext.owners token = some (.device dev invite)) :
    outline.Safe r (finish dev invite token down) (mintWrites dev invite token irow) s := by
  refine wp_commit fun s' hrely hinv _ => ⟨?_, wp_quiet (cached_quiet token down)⟩
  have hdev := hrely.devices dev (by simp [Locked, lockedRows, mintWrites, Store.key])
  have hinvite := hrely.invites invite (by simp [Locked, lockedRows, mintWrites, Store.key])
  exact step_mint (hdev.trans hnone) (hinvite.trans hissued) hcons (hrely.owners _ _ howner) hinv

/-- After the upsert: the device had no row, or one that was minted from the invite. -/
inductive Upserted (dev : Dev) (invite token : ℕ) : Bool → List Write → State → Prop
  | new {s : State} (hnone : s.db.devices.get dev = none) :
      Upserted dev invite token true [.device dev (some ⟨token, invite, false⟩)] s
  | old {s : State} {row : Device} (hrow : s.db.devices.get dev = some row)
      (hparent : row.parentId = invite) :
      Upserted dev invite token false [.device dev (some { row with tokenHash := token })] s

theorem wp_upsert (dev : Dev) (invite token : ℕ)
    (howner : s.ext.owners token = some (.device dev invite)) :
    outline.wp r (upsert dev invite token) (fun inserted ws s =>
      Upserted dev invite token inserted ws s ∧ s.ext.owners token = some (.device dev invite))
      [] s := by
  refine wp_write coherent fun s' hrely hinv hcond => ⟨?_, hrely.owners _ _ howner⟩
  rw [Shared.view_nil, nil_append]
  unfold Db.upserted
  cases hrow : s'.db.devices.get dev with
  | none => exact .new hrow
  | some row => exact .old hrow (hcond row hrow)

theorem mint_safe (dev : Dev) (invite presented : ℕ) (down : Bool) :
    outline.Safe r (mint dev invite presented down) [] s := by
  refine wp_seq (wp_draw (.device dev invite)) ?_
  rintro ⟨token, now⟩ ws s ⟨rfl, ho⟩
  refine wp_seq (wp_upsert dev invite token ho) ?_
  rintro inserted ws s ⟨hup, ho⟩
  cases hup with
  | old hrow hparent => exact finish_remint_safe hrow hparent ho
  | new hnone =>
    refine wp_write_bind coherent fun s' hrely _ _ => ?_
    have hview : (s'.view [Write.device dev (some ⟨token, invite, false⟩)]).issued =
        s'.db.issued := rfl
    rw [Db.consumes, hview]
    split
    · rename_i hconsumed
      obtain ⟨irow, hirow, hcons⟩ := (Option.any_eq_true _ _).mp hconsumed
      have hdev := hrely.devices dev (mem_singleton.mpr rfl)
      simp only [hirow, hcons, if_true]
      exact finish_mint_safe (hdev.trans hnone) hirow hcons (hrely.owners _ _ ho)
    · exact fun _ _ _ => trivial

theorem flags_revokes (s : State) (target : RowId) : Flags (s.db.revokes target) s := by
  cases target with
  | issued id =>
    simp only [Db.revokes]
    split
    · rename_i row hrow
      refine ⟨fun _ _ h => (by cases mem_singleton.mp h), fun id' row' h => ?_⟩
      obtain ⟨rfl, rfl⟩ := Write.issued.inj (mem_singleton.mp h)
      exact ⟨row, hrow, rfl⟩
    · exact .nil s
  | device dev =>
    simp only [Db.revokes]
    split
    · rename_i row hrow
      refine ⟨fun dev' row' h => ?_, fun _ _ h => (by cases mem_singleton.mp h)⟩
      obtain ⟨rfl, rfl⟩ := Write.device.inj (mem_singleton.mp h)
      exact ⟨row, hrow, rfl⟩
    · exact .nil s

theorem issued_notMem_revokes (db : Db) (dev : Dev) (id : ℕ) (row : Option Issued) :
    Write.issued id row ∉ db.revokes (.device dev) := by
  simp only [Db.revokes]
  split
  · simp
  · simp

/-- The revocation of a device. -/
theorem revokeDevice_safe (dev : Dev) (down : Bool) :
    outline.Safe r (adminRevokeToken (.device dev) down) [] s := by
  refine wp_read_bind coherent fun s₁ _ _ _ => ?_
  split
  · exact trivial
  · rename_i row _
    refine wp_write_bind coherent fun s₂ _ _ _ => wp_commit fun s₃ hrely hinv _ => ⟨?_, ?_⟩
    · refine step_flags ((flags_revokes s₂ (.device dev)).rely hrely)
        (mild_of_eq rfl rfl le_rfl rfl) hinv ?_
      exact fun id irow hmem => absurd hmem (issued_notMem_revokes s₂.db dev id _)
    · have hevict := evict_within [row.tokenHash] down
      exact wp_quiet (hevict.bind fun _ => trivial)

/-- With an invite, everything that was minted from it is about to be revoked. -/
def Cascades (ws : List Write) (s : State) : Prop :=
  ∀ id row, Write.issued id (some row) ∈ ws → row.kind = .invite →
    ∀ dev ∈ children s.db id, ∃ row', Write.device dev row' ∈ ws

theorem Cascades.rely {l : Option Label} (h : Cascades ws s) (hrely : outline.Rely r l ws s s') :
    Cascades ws s' := by
  intro id row hmem hkind dev hdev
  have hlocked : Locked ws (.issued id) := mem_map.mpr ⟨_, hmem, rfl⟩
  exact h id row hmem hkind dev (hrely.minted id hlocked hdev)

theorem wp_commitRevoke {id : ℕ} (hflags : Flags ws s) (hcascades : Cascades ws s) :
    outline.wp r (commitRevoke (.issued id)) (fun _ ws _ => ws = []) ws s :=
  wp_commit fun _ hrely hinv _ =>
    ⟨step_flags (hflags.rely hrely) (mild_refl _) hinv (hcascades.rely hrely), rfl⟩

/-- The devices that an invite has when its own row is locked are all that it will have. -/
theorem wp_revokeChildren {id : ℕ} {row : Option Issued} (hflags : Flags [.issued id row] s) :
    outline.wp r (revokeChildren id) (fun _ ws s => Flags ws s ∧ Cascades ws s)
      [.issued id row] s := by
  refine wp_write coherent fun s' hrely _ _ => ?_
  have hflags' : Flags [.issued id row] s' := hflags.rely hrely
  have hview : (s'.view [Write.issued id row]).devices = s'.db.devices := rfl
  have hmem : ∀ dev row', Write.device dev row' ∈ (s'.view [Write.issued id row]).revokesChildren id ↔
      ∃ d, s'.db.devices.get dev = some d ∧ d.parentId = id ∧ row' = some { d with revoked := true } := by
    intro dev row'
    simp only [Db.revokesChildren, Db.childrenOf, hview, mem_map, Prod.exists,
      Table.mem_select, beq_iff_eq, Write.device.injEq]
    constructor
    · rintro ⟨d, row, ⟨hrow, hparent⟩, rfl, rfl⟩
      exact ⟨row, hrow, hparent, rfl⟩
    · rintro ⟨row, hrow, hparent, rfl⟩
      exact ⟨dev, row, ⟨hrow, hparent⟩, rfl, rfl⟩
  have hnone : ∀ i irow, Write.issued i irow ∉ (s'.view [Write.issued id row]).revokesChildren id := by
    intro i irow h
    obtain ⟨d, -, heq⟩ := mem_map.mp h
    cases heq
  refine ⟨hflags'.append ⟨fun dev row' h => ?_, fun i irow h => absurd h (hnone i irow)⟩, ?_⟩
  · obtain ⟨d, hd, -, rfl⟩ := (hmem dev row').mp h
    exact ⟨d, hd, rfl⟩
  · intro i irow h _ dev hdev
    rcases mem_append.mp h with h | h
    · obtain ⟨rfl, -⟩ := Write.issued.inj (mem_singleton.mp h)
      obtain ⟨d, hd, hparent⟩ := mem_children.mp hdev
      exact ⟨_, mem_append_right _ ((hmem dev _).mpr ⟨d, hd, hparent, rfl⟩)⟩
    · exact absurd h (hnone i _)

/-- The row of the operator that a revocation writes, if there is one, is of the kind that was
read. -/
theorem wp_revokeIssued {id : ℕ} {row : Issued} (hrow : s.db.issued.get id = some row) :
    outline.wp r (revokeRow (.issued id)) (fun _ ws s => Flags ws s ∧
      ∃ row', ws = [.issued id (some row')] ∧ row'.kind = row.kind) [] s := by
  refine wp_write coherent fun s' hrely _ _ => ?_
  obtain ⟨row', hrow', hkind⟩ := hrely.kinds id row hrow
  have hwrites : s'.db.revokes (.issued id) = [.issued id (some { row' with revoked := true })] := by
    simp [Db.revokes, hrow']
  refine ⟨flags_revokes s' (.issued id), { row' with revoked := true }, ?_, hkind⟩
  rw [Shared.view_nil, nil_append, hwrites]

theorem revokeIssued_safe (id : ℕ) (down : Bool) :
    outline.Safe r (adminRevokeToken (.issued id) down) [] s := by
  refine wp_read_bind coherent fun s₁ _ _ _ => ?_
  split
  · exact trivial
  · rename_i row hrow
    refine wp_seq (wp_revokeIssued hrow) ?_
    rintro - ws s ⟨hflags, row', rfl, hkind⟩
    split
    · refine wp_read_bind coherent fun s₂ hrely _ _ => ?_
      refine wp_seq (wp_revokeChildren (hflags.rely hrely)) ?_
      rintro - ws s ⟨hflags, hcascades⟩
      refine wp_seq (wp_commitRevoke hflags hcascades) ?_
      rintro - ws s rfl
      exact wp_quiet (Within.bind (evict_within _ _) fun _ => trivial)
    · rename_i hstanding
      have hcascades : Cascades [.issued id (some row')] s := by
        intro i irow hmem hinvite
        obtain ⟨-, heq⟩ := Write.issued.inj (mem_singleton.mp hmem)
        obtain rfl := Option.some.inj heq
        exact absurd (hkind.symm.trans hinvite) hstanding
      refine wp_seq (wp_commitRevoke hflags hcascades) ?_
      rintro - ws s rfl
      exact wp_quiet (Within.bind (evict_within _ _) fun _ => trivial)

theorem adminCreateToken_safe (kind : Kind) (maxUses : Option ℕ) (expiresInDays : Option ℕ) :
    outline.Safe r (adminCreateToken kind maxUses expiresInDays) [] s := by
  refine wp_seq (wp_draw .operator) ?_
  rintro ⟨token, now⟩ ws s ⟨rfl, ho⟩
  intro s' hrely hinv _
  have ho' := hrely.owners _ _ ho
  refine ⟨step_mild hinv (mild_of_eq rfl rfl (Nat.le_succ _) rfl), ?_⟩
  have hnone : s'.db.issued.get s'.ext.nextId = none := by
    cases hget : s'.db.issued.get s'.ext.nextId with
    | none => rfl
    | some row => exact absurd (hinv.ids _ row hget) (Nat.lt_irrefl _)
  refine wp_commit fun s'' hrely' hinv' _ => ⟨?_, trivial⟩
  have hsame := hrely'.invites s'.ext.nextId (mem_singleton.mpr rfl)
  refine step_create hinv' (hsame.trans hnone) ?_ (hrely'.owners _ _ ho') rfl
  exact Nat.lt_of_succ_le hrely'.nextId_le

theorem handler_safe (r : Request) (s : State) : outline.Safe r (handler r) [] s := by
  cases r with
  | check auth down => exact safe_map (wp_quiet (gateCheck_within auth down)) _
  | redeem dev auth down => exact safe_map (gateRedeem_safe coherent mint_safe dev auth down) _
  | revoke target down =>
    cases target with
    | device dev => exact safe_map (revokeDevice_safe dev down) _
    | issued id => exact safe_map (revokeIssued_safe id down) _
  | create kind maxUses expiresInDays =>
    exact wp_seq (adminCreateToken_safe kind maxUses expiresInDays) fun _ _ _ _ => trivial
  | tick seconds =>
    exact wp_quiet (Within.bind
      (Within.effect fun _ _ => mild_of_eq rfl rfl le_rfl rfl) fun _ => trivial)

end RcqServer.Gate.Invites

namespace RcqServer.Gate

open ReadCommitted Outline List World Prog

/-! ## Runs -/

/-- The devices that have got a token for an invite. -/
def Ext.admittedThrough (e : Ext) (id : ℕ) : Finset Dev :=
  ((e.admitted.filter (·.2 = id)).map Prod.fst).toFinset

theorem mem_admittedThrough {e : Ext} {id : ℕ} {dev : Dev} :
    dev ∈ e.admittedThrough id ↔ (dev, id) ∈ e.admitted := by
  simp [Ext.admittedThrough]

/-- A check of a token without an entry in the cache whose row is revoked, or gone. -/
theorem gateCheck_denies {s : State} {token : ℕ} (down : Bool)
    (hcache : Expiring.read s.ext.now (s.ext.metas token) = none)
    (hrow : ∀ found, s.db.byHash token = some found → found.meta.revoked) :
    ((gateCheck (some (.token token)) down).exec s).1 = .ok false := by
  have hlookup : (if down then none else Expiring.read s.ext.now (s.ext.metas token)) = none := by
    rw [hcache]
    split <;> rfl
  cases hfound : s.db.byHash token with
  | none =>
    simp [gateCheck, metaOf, Prog.exec, Prog.run, Prog.read, Prog.bind, bind_eq, pure_eq,
      hlookup, hfound, Except.map]
  | some found =>
    have hinactive : ∀ now, found.meta.active now = false := by
      intro now
      simp [Meta.active, hrow found hfound]
    cases down with
    | true =>
      simp [gateCheck, metaOf, judge, cache, Prog.exec, Prog.run, Prog.read, Prog.bind,
        bind_eq, pure_eq, Prog.onlyIf, hfound, hinactive, Except.map]
    | false =>
      simp [gateCheck, metaOf, judge, cache, Prog.exec, Prog.run, Prog.read, Prog.bind,
        bind_eq, pure_eq, Prog.onlyIf, Prog.effect, hcache, hfound, hinactive,
        Except.map]

/-- Devices that have a row present the invite that the row was minted from. -/
def PresentsParent (w : World) : Action Request → Prop
  | .step n => ∀ x ∈ w.upcoming n, Invites.PresentsParent w.shared x.2
  | _ => True

/-- **What an invite admits.**  In every run of redeems, revocations, checks and creations of tokens,
however their statements interleave, in which devices that have a row present the invite that the row
was minted from: as many devices have got a token for an invite as it has uses consumed, and these are
not more than it may have.  Once the invite is revoked, every token that was drawn for it is denied
when nothing is left of it in the cache. -/
theorem invite_admits_its_uses {now : Time} {w : World}
    (hrun : Run handler PresentsParent (initial now) w) {id : ℕ} {row : Issued}
    (hrow : w.shared.db.issued.get id = some row) (hkind : row.kind = .invite) :
    (w.shared.ext.admittedThrough id).card = row.uses ∧ (∀ m ∈ row.maxUses, row.uses ≤ m) ∧
      (row.revoked → ∀ token dev, w.shared.ext.owners token = some (.device dev id) →
        Expiring.read w.shared.ext.now (w.shared.ext.metas token) = none →
        ∀ down, ((gateCheck (some (.token token)) down).exec w.shared).1 = .ok false) := by
  have hinit : Invites.Inv (initial now).shared := by
    refine ⟨fun _ _ => rfl, nofun, nofun,
      nofun, nofun, nofun, fun dev id => ?_⟩
    simp [initial, fresh, Invites.mem_children]
  have hallows : ∀ (w : World) x, PresentsParent w x → Invites.outline.Allows w x :=
    allows_of_upcoming (fun _ _ => trivial) (fun _ _ _ _ => trivial) fun _ _ h => h
  have hinv : Invites.Inv w.shared := inv_of_run Invites.coherent
    (fun r s _ _ => Invites.handler_safe r s) hinit (Run.mono hallows hrun)
  obtain ⟨hcard, hmax⟩ := hinv.uses id row hrow
  refine ⟨?_, fun m hm => ?_, fun hrevoked token dev howner hcache down => ?_⟩
  · have hsame : w.shared.ext.admittedThrough id = Invites.children w.shared.db id := by
      ext dev
      rw [mem_admittedThrough, hinv.admitted]
    rw [hsame, hcard]
  · rw [Option.mem_def.mp hm] at hmax
    exact of_decide_eq_true hmax
  · refine gateCheck_denies down hcache fun found hfound => ?_
    -- the row with the token is that of its device, and the invite is the device's parent
    rcases hinv.owned.byHash hfound with ⟨_, _, -, -, ho⟩ | ⟨d, drow, _, rfl, hdrow, -⟩
    · cases ho.symm.trans howner
    · have hhash : drow.tokenHash = token := by
        unfold Db.byHash at hfound
        split at hfound
        · cases hfound
        · obtain ⟨x, hhead, heq⟩ := Option.map_eq_some_iff.mp hfound
          obtain ⟨-, hx⟩ := Table.mem_select.mp (mem_of_head? hhead)
          obtain ⟨rfl, rfl⟩ := Found.device.inj heq
          exact beq_iff_eq.mp hx
      have hown := (hinv.device d drow hdrow).1
      rw [hhash, howner, Option.some.injEq, Owner.device.injEq] at hown
      exact hinv.cascade id row hrow hkind hrevoked d drow hdrow hown.2.symm

section Example

instance : DecidableRel Invites.PresentsParent := by
  rintro s (_ | _) <;> unfold Invites.PresentsParent <;> infer_instance

instance : DecidableRel PresentsParent := by
  rintro w (_ | _) <;> unfold PresentsParent <;> infer_instance

/-- Two devices. -/
def phone : Dev := "00000000000000aa".toList

def laptop : Dev := "00000000000000bb".toList

/-- The phone redeems an invite, and once more after a lost response; the laptop comes too late.  The
invite is revoked. -/
def oneInvite : List (Action Request) :=
  .start (Request.create .invite none none) :: steps 0 4 ++
    .start (Request.redeem phone (some (.token 0)) false) :: steps 1 7 ++
    .start (Request.redeem phone (some (.token 0)) false) :: steps 2 6 ++
    .start (Request.redeem laptop (some (.token 0)) false) :: steps 3 6 ++
    .start (Request.revoke (.issued 0) false) :: steps 4 7

theorem invite_admits_its_uses_once :
    let w := (initial 0).play handler oneInvite
    w.answer? 2 = some (.redeem (.minted 2)) ∧ w.answer? 3 = some (.redeem .denied) ∧
      (w.shared.ext.admittedThrough 0).card = 1 ∧
      ((gateCheck (some (.token 2)) false).exec w.shared).1 = .ok false := by
  have hrun : Run handler PresentsParent (initial 0)
      ((initial 0).play handler oneInvite) := .of_play oneInvite (by decide +kernel)
  have hrow : ((initial 0).play handler oneInvite).shared.db.issued.get 0 =
      some ⟨0, .invite, some 1, 1, none, true⟩ := by decide +kernel
  have h := invite_admits_its_uses hrun hrow rfl
  have howner : ((initial 0).play handler oneInvite).shared.ext.owners 2 =
      some (.device phone 0) := by decide +kernel
  have hcache : Expiring.read ((initial 0).play handler oneInvite).shared.ext.now
      (((initial 0).play handler oneInvite).shared.ext.metas 2) = none := by decide +kernel
  exact ⟨by decide +kernel, by decide +kernel, h.1, h.2.2 rfl 2 phone howner hcache false⟩

/-- The phone redeems one invite and then another, which the laptop redeems as well.  The second
invite is revoked. -/
def twoInvites : List (Action Request) :=
  .start (Request.create .invite none none) :: steps 0 4 ++
    .start (Request.create .invite none none) :: steps 1 4 ++
    .start (Request.redeem phone (some (.token 0)) false) :: steps 2 7 ++
    .start (Request.redeem phone (some (.token 1)) false) :: steps 3 6 ++
    .start (Request.redeem laptop (some (.token 1)) false) :: steps 4 7 ++
    .start (Request.revoke (.issued 1) false) :: steps 5 7 ++ .start (Request.tick 120) :: steps 6 2 ++
    .start (Request.check (some (.token 3)) false) :: steps 7 5

/-- Two devices were admitted through an invite with one use, of which the revocation reaches one:
two minutes later the phone's token passes the gate. -/
theorem second_invite_admits_two :
    let w := (initial 0).play handler twoInvites
    Run handler (fun _ _ => True) (initial 0) w ∧
      w.shared.db.issued.get 1 = some ⟨1, .invite, some 1, 1, none, true⟩ ∧
      (w.shared.ext.admittedThrough 1).card = 2 ∧
      w.shared.ext.owners 3 = some (.device phone 1) ∧ w.answer? 7 = some (.check true) :=
  ⟨.of_play twoInvites (by decide +kernel), by decide +kernel⟩

end Example

end RcqServer.Gate
