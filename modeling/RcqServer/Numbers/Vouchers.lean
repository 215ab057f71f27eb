import RcqServer.Numbers.InOrder

/-!
# A voucher is good for one thing

A redeemed voucher leaves its nonce in `spent_vouchers`, in the transaction that gives something
for it.  The row is what excludes a second redemption at whatever door: the session that has
inserted it keeps it locked until its commit, so that nobody else's commit can have spent the nonce
in between.
-/

namespace RcqServer.Numbers

open ReadCommitted Prog Outline List World Shared

/-- The nonces of the vouchers that have been turned into something. -/
def Ext.granted (e : Ext) : List Nonce := e.grants.map Grant.nonce

/-- The effect gives one thing for the voucher, if there is one. -/
def Gives (voucher : Option Nonce) (e e' : Ext) : Prop :=
  e'.granted = voucher.toList ++ e.granted

@[simp] theorem gives_none (e : Ext) : Gives none e e := rfl

@[simp] theorem gives_none_hand (e : Ext) (uin : Uin) (door : Door) :
    Gives none e (e.hand uin door) := rfl

@[simp] theorem gives_none_quote (e : Ext) (uin : Uin) (sale : String) (held : Bool) :
    Gives none e (e.quote uin sale held) := rfl

theorem gives_grantEntry (voucher : Option Nonce) (e : Ext) :
    Gives voucher e (e.grantEntry voucher) := by
  cases voucher with
  | none => rfl
  | some nonce => rfl

namespace Vouchers

/-! ## The outline -/

/-- No nonce has been granted twice, and every granted one is spent. -/
structure Inv (s : State) : Prop where
  nodup : s.ext.granted.Nodup
  spent : ∀ nonce ∈ s.ext.granted, (s.db.spentVouchers.get nonce).isSome

/-- Others leave a row alone that is locked, and a commit leaves the rows alone that are not. -/
def outline : Outline Db Ext Write Label Request where
  Inv := Inv
  Rely _ _ ws s s' := ∀ nonce, RowKey.spent nonce ∈ lockedRows Db ws →
    s'.db.spentVouchers.get nonce = s.db.spentVouchers.get nonce
  Guar _ _ ws s s' := ∀ nonce, RowKey.spent nonce ∉ lockedRows Db ws →
    s'.db.spentVouchers.get nonce = s.db.spentVouchers.get nonce
  Start _ _ := True
  Cond _ _ _ := True
  Apart _ _ _ _ := True

theorem coherent : outline.Coherent where
  rely_refl _ _ _ _ _ _ := rfl
  rely_trans _ _ _ _ _ _ h h' nonce hlock := (h' nonce hlock).trans (h nonce hlock)
  guar_refl _ _ _ _ _ _ := rfl
  rely_of_guar _ _ _ _ _ _ _ _ _ hstep hlocks _ nonce hlock :=
    hstep.guar nonce (hlocks _ hlock)

variable {r : Request} {l : Label} {voucher : Option Nonce} {ws : List Write} {s : State}

/-- The request has inserted the row of the voucher, if it has one, and no other nonce. -/
structure Carrying (voucher : Option Nonce) (ws : List Write) (s : State) : Prop where
  only : ∀ nonce row, Write.spent nonce row ∈ ws → voucher = some nonce ∧ row.isSome
  pending : ∀ nonce, voucher = some nonce → ∃ row, Write.spent nonce row ∈ ws
  unspent : ∀ nonce, voucher = some nonce → s.db.spentVouchers.get nonce = none

theorem carrying_nil (s : State) : Carrying none [] s where
  only _ _ h := absurd h not_mem_nil
  pending _ h := nomatch h
  unspent _ h := nomatch h

/-- A write that is not about vouchers. -/
def Unspent (o : Write) : Prop := ∀ nonce row, o ≠ .spent nonce row

@[simp] theorem unspent_iff {o : Write} : Unspent o ↔ ∀ nonce row, o ≠ .spent nonce row := Iff.rfl

theorem carried (voucher : Option Nonce) :
    outline.Carried r (fun _ => True) Unspent (Carrying voucher) where
  stable := by
    intro l ws s s' _ h hrely _
    refine ⟨h.only, h.pending, fun nonce hnonce => ?_⟩
    obtain ⟨row, hrow⟩ := h.pending nonce hnonce
    rw [hrely nonce (mem_map_of_mem hrow)]
    exact h.unspent nonce hnonce
  write := by
    intro ws s new h _ hnew
    refine ⟨fun nonce row hmem => ?_, fun nonce hnonce => ?_, h.unspent⟩
    · rcases mem_append.mp hmem with hmem | hmem
      · exact h.only nonce row hmem
      · exact absurd rfl (hnew _ hmem nonce row)
    · obtain ⟨row, hrow⟩ := h.pending nonce hnonce
      exact ⟨row, mem_append_left _ hrow⟩

/-- A commit leaves the nonces alone that it has not locked. -/
private theorem guar_commit (e : Ext) : outline.Guar r l ws s (s.commit ws e) := by
  intro nonce hlock
  refine sets_spentVouchers.get_applyAll_of_notMem (fun row hrow => hlock ?_) s.db
  exact mem_map_of_mem (f := Store.key Db) hrow

/-- The commit that gives something for the voucher: the nonce was unspent up to now, so it has
not been granted before. -/
theorem step_give (h : Carrying voucher ws s) (hinv : Inv s) {e : Ext}
    (hgives : Gives voucher s.ext e) : outline.Step r l ws s (s.commit ws e) := by
  refine ⟨⟨?_, ?_⟩, guar_commit e⟩
  · rw [commit_ext, hgives]
    cases voucher with
    | none => exact hinv.nodup
    | some nonce =>
      refine nodup_cons.mpr ⟨fun hmem => ?_, hinv.nodup⟩
      have hspent := hinv.spent nonce hmem
      rw [h.unspent nonce rfl] at hspent
      cases hspent
  · intro nonce hmem
    rw [commit_ext, hgives, mem_append, Option.mem_toList] at hmem
    rw [commit_db, view]
    rcases hmem with hnew | hold
    · -- the row is among the writes
      obtain ⟨row, hrow⟩ := h.pending nonce hnew
      exact (h.only nonce _ (sets_spentVouchers.get_applyAll_of_mem hrow s.db)).2
    · rcases sets_spentVouchers.get_applyAll ws s.db nonce with hsame | hmem
      · rw [hsame]
        exact hinv.spent nonce hold
      · exact (h.only nonce _ hmem).2

/-- Requests without a voucher. -/
theorem framed : outline.Framed r Unspent (Gives none) (Carrying none) where
  stable l ws s s' h _ _ := ⟨h.only, nofun, nofun⟩
  stmt := by
    intro l ws s new e h hinv hnew he
    refine ⟨⟨⟨?_, ?_⟩, fun _ _ => rfl⟩, ?_⟩
    · rw [tell_ext, he]
      exact hinv.nodup
    · rw [tell_ext, he]
      exact hinv.spent
    · have hwrite := (carried (r := r) none).write ws s new h hinv hnew
      exact ⟨hwrite.only, hwrite.pending, nofun⟩
  commit l ws s e h hinv he := ⟨step_give h hinv he, carrying_nil _⟩
  rollback _ s _ := carrying_nil s

/-! ## Rules -/

variable {till : Till} {me : Uin} {α : Type} {code : String}

/-- A part of a request that is not about vouchers. -/
theorem wp_carry {β : Type} {p : Handler α} {f : α → Handler β}
    {R : β → List Write → State → Prop} (hp : p.Part Unspent (fun _ => True))
    (h : Carrying voucher ws s) (hf : ∀ a ws s, Carrying voucher ws s → outline.wp r (f a) R ws s) :
    outline.wp r (p.bind f) R ws s :=
  wp_part_bind coherent (carried voucher) hp h hf

/-- The commit that gives something for the voucher. -/
theorem wp_give {x : Ext → Ext} {k : Handler α}
    {Q : α → List Write → State → Prop} (h : Carrying voucher ws s)
    (hx : ∀ e, Gives voucher e (x e)) (hk : ∀ s, Carrying none [] s → outline.wp r k Q [] s) :
    outline.wp r (.commit l x k) Q ws s := by
  intro s' hrely hinv _
  have hnow := (carried (r := r) voucher).stable l ws s s' trivial h hrely hinv
  exact ⟨step_give hnow hinv (hx s'.ext), hk _ (carrying_nil _)⟩

/-- The row of a voucher is inserted only if it is not there. -/
theorem wp_spendVoucher {nonce : Nonce} (h : Carrying none ws s) :
    outline.wp r (spendVoucher l nonce) (fun _ ws s => Carrying (some nonce) ws s) ws s := by
  have hclear : ∀ nonce row, Write.spent nonce row ∉ ws := fun nonce row hmem =>
    nomatch (h.only nonce row hmem).1
  refine wp_insert coherent fun s' _ _ hrow => ⟨fun n row hmem => ?_, fun n hn => ?_, fun n hn => ?_⟩
  · rcases mem_append.mp hmem with hmem | hmem
    · exact absurd hmem (hclear n row)
    · cases mem_singleton.mp hmem
      exact ⟨rfl, rfl⟩
  · cases hn
    exact ⟨_, mem_append_right _ (mem_singleton.mpr rfl)⟩
  · cases hn
    exact (sets_spentVouchers.get_applyAll_of_notMem (hclear nonce) s'.db).symm.trans hrow

theorem wp_redeemEntry (h : Carrying none ws s) :
    outline.wp r (redeemEntry till code) (fun voucher ws s => Carrying voucher ws s) ws s := by
  unfold redeemEntry
  split
  · exact h
  refine wp_carry (by simp) h fun now ws s h => ?_
  split
  · exact wp_seq (wp_spendVoucher h) fun _ ws s h => h
  · split
    · exact trivial
    · exact h

/-! ## The doors that take vouchers -/

theorem register_safe {cfg : Config} {body : RegisterIn} {env : RegisterEnv}
    (h : Carrying none ws s) : outline.Safe r (register cfg till body env) ws s := by
  refine wp_carry (by simp) h fun _ ws s h => ?_
  refine wp_carry (by simp) h fun _ ws s h => ?_
  refine wp_carry (by simp) h fun _ ws s h => ?_
  refine wp_carry (by simp) h fun _ ws s h => ?_
  split
  · exact trivial
  refine wp_carry (by simp) h fun _ ws s h => ?_
  refine wp_seq (wp_redeemEntry h) fun voucher ws s h => ?_
  refine wp_carry (by simp) h fun reserved ws s h => ?_
  refine wp_carry (by simp) h fun guest ws s h => ?_
  split
  · refine wp_carry (by simp) h fun _ ws s h => ?_
    refine wp_carry (by simp) h fun _ ws s h => ?_
    refine wp_carry (by simp) h fun _ ws s h => ?_
    exact wp_give h (gives_grantEntry voucher) fun _ _ => trivial
  · refine wp_carry (by simp) h fun uin ws s h => ?_
    refine wp_carry (by simp) h fun _ ws s h => ?_
    exact wp_give h (fun e => gives_grantEntry voucher e) fun _ _ => trivial

theorem guestSettle_safe {policy : Option Policy} (h : Carrying none ws s) :
    outline.Safe r (guestSettle till me code policy) ws s := by
  refine wp_carry (by simp) h fun user ws s h => ?_
  split
  · exact trivial
  refine wp_carry (by simp) h fun _ ws s h => ?_
  refine wp_seq (wp_redeemEntry h) fun voucher ws s h => ?_
  refine wp_carry (by simp) h fun _ ws s h => ?_
  refine wp_carry (by simp) h fun _ ws s h => ?_
  exact wp_give h (gives_grantEntry voucher) fun _ _ => trivial

theorem residencyRedeem_safe (h : Carrying none ws s) :
    outline.Safe r (residencyRedeem till me code) ws s := by
  refine wp_carry (by simp) h fun user ws s h => ?_
  split
  · exact trivial
  refine wp_carry (by simp) h fun _ ws s h => ?_
  refine wp_carry (by simp) h fun _ ws s h => ?_
  refine wp_carry (by simp) h fun now ws s h => ?_
  split
  · exact trivial
  · refine wp_seq (wp_spendVoucher h) fun _ ws s h => ?_
    refine wp_carry (by simp) h fun _ ws s h => ?_
    exact wp_give h (fun _ => rfl) fun _ _ => trivial

/-- `_take`, whose commit gives something for the voucher. -/
theorem wp_take {door : Door} {user : UserRow} {owner target : Uin} {switch : Bool}
    {source : Source} {x : Ext → Ext} (h : Carrying voucher ws s)
    (hx : ∀ e, Gives voucher e (x e)) : outline.wp r (take door user owner target switch source x)
      (fun _ ws s => Carrying none ws s) ws s := by
  have hread : ∀ (owner : Uin) (f : List Uin → PurchaseOut) s, Carrying none [] s →
      outline.wp r ((ownedUins .ownedUins owner).bind fun owned => .ret (f owned))
        (fun _ ws s => Carrying none ws s) [] s := fun owner f s h =>
    wp_carry (by simp) h fun _ _ _ h => h
  unfold take
  split
  · rw [performMigration_eq]
    refine wp_bind.mpr ?_
    refine wp_carry (by simp) h fun _ ws s h => ?_
    exact wp_give h hx fun s h => hread _ _ s h
  · refine wp_carry (by simp) h fun _ ws s h => ?_
    refine wp_carry (by simp) h fun _ ws s h => ?_
    refine wp_carry (by simp) h fun _ ws s h => ?_
    exact wp_give h hx fun s h => hread _ _ s h

/-- The second, empty commit of `redeem`. -/
private theorem wp_commitOnly {a : α} (h : Carrying none ws s) :
    outline.Safe r ((commitOnly .commit : Handler Unit).bind fun _ => .ret a) ws s :=
  wp_give h gives_none fun _ _ => trivial

theorem redeemResale_safe {user : UserRow} {listing : Listing}
    {body : RedeemIn} (h : Carrying none ws s) :
    outline.Safe r (redeemResale till user me listing body) ws s := by
  refine wp_carry (by simp) h fun _ ws s h => ?_
  refine wp_carry (by simp) h fun _ ws s h => ?_
  refine wp_carry (by simp) h fun now ws s h => ?_
  split
  · exact trivial
  refine wp_carry (by simp) h fun _ ws s h => ?_
  refine wp_carry (by simp) h fun _ ws s h => ?_
  refine wp_seq (wp_spendVoucher h) fun _ ws s h => ?_
  refine wp_carry (by simp) h fun moved ws s h => ?_
  refine wp_carry (by simp) h fun _ ws s h => ?_
  refine wp_carry (by simp) h fun _ ws s h => ?_
  refine wp_carry (by simp) h fun _ ws s h => ?_
  split
  · exact wp_seq (wp_take h (fun _ => rfl)) fun _ _ _ h => wp_commitOnly h
  · refine wp_give h (fun _ => rfl) fun s h => ?_
    have hread : outline.Safe r (ownedUins .ownedUins me) [] s :=
      wp_read coherent fun _ _ _ _ => trivial
    exact safe_map hread _

theorem redeem_safe {body : RedeemIn} {shop resale : Bool} (h : Carrying none ws s) :
    outline.Safe r (redeem till me body shop resale) ws s := by
  refine wp_carry (by simp) h fun _ ws s h => ?_
  refine wp_carry (by simp) h fun user ws s h => ?_
  refine wp_carry (by simp) h fun listing ws s h => ?_
  split
  · exact redeemResale_safe h
  refine wp_carry (by simp) h fun now ws s h => ?_
  split
  · exact trivial
  refine wp_carry (by simp) h fun taken ws s h => ?_
  refine wp_carry (by simp) h fun _ ws s h => ?_
  refine wp_seq (wp_spendVoucher h) fun _ ws s h => ?_
  refine wp_carry (by simp) h fun _ ws s h => ?_
  refine wp_carry (by simp) h fun _ ws s h => ?_
  exact wp_seq (wp_take h (fun _ => rfl)) fun _ _ _ h => wp_commitOnly h

/-! ## The system -/

theorem handler_safe (cfg : Config) (till : Till) (r : Request) (s : State) :
    outline.Safe r (handler cfg till r) [] s := by
  have h : Carrying none [] s := carrying_nil s
  -- a request that spends no voucher stays within the frame
  have hframe : ∀ {α : Type} {p : Handler α} (f : α → Answer),
      p.Whole Unspent (Gives none) →
        outline.Safe r (p.bind fun a => .ret (f a)) [] s := fun f hp =>
    safe_map (safe_within framed hp.1 h) f
  cases r with
  | register body env => exact safe_map (register_safe h) _
  | guestSettle me code policy => exact safe_map (guestSettle_safe h) _
  | residencyRedeem me voucher => exact safe_map (residencyRedeem_safe h) _
  | redeem me body shop resale => exact safe_map (redeem_safe h) _
  | tick seconds => exact hframe _ ⟨Within.effect fun _ _ => rfl, fun _ _ => trivial⟩
  | _ => exact hframe _ (by simp)

end Vouchers

/-- **A voucher is good for one thing, and a refusal costs nothing.**  In every run of all the
requests, no nonce is granted twice at whatever doors, and no step of a request that ends in a
refusal changes the database. -/
theorem voucher_granted_once (cfg : Config) (till : Till) {db : Db} {now : Time} {w : World}
    (hrun : Run (handler cfg till) (fun _ _ => True) (.fresh db (.initial now)) w) :
    (w.shared.ext.grants.map Grant.nonce).Nodup ∧ ∀ (n : ℕ) (w₁ w₂ : World),
        Run (handler cfg till) (fun _ _ => True) (.fresh db (.initial now)) w₁ →
        w₁.next (handler cfg till) (.step n) = some w₂ →
        Run (handler cfg till) (fun _ _ => True) w₂ w →
        (∃ r e, w.sessions[n]? = some (.refused r e)) → w₂.shared.db = w₁.shared.db := by
  constructor
  · have hinit : Vouchers.Inv ⟨db, .initial now, []⟩ :=
      ⟨nodup_nil, nofun⟩
    have hinv : Vouchers.Inv w.shared := by
      refine inv_of_run Vouchers.coherent (fun r s _ _ => Vouchers.handler_safe cfg till r s) hinit
        (Run.mono (fun w a _ => ?_) hrun)
      exact allows_of_forall (fun _ _ => trivial) (fun _ _ _ => trivial)
        (fun _ _ _ _ => trivial) w a
    exact hinv.nodup
  · rintro n w₁ w₂ hbefore hstep hafter ⟨r, e, hrefused⟩
    exact db_eq_of_refused (handler_atomic cfg till) hbefore hstep hafter hrefused

/-- A till whose vouchers are their own nonces. -/
def frankTill : Till where
  verify _ voucher _ := .ok voucher
  verifyResale _ _ _ := .error "bad_voucher"
  verifyEntry _ voucher := .ok voucher
  verifyHold _ _ := .error "bad_request"
  verifyPayout _ _ := .error "bad_request"

/-- A guest settles with a voucher while somebody buys the number 5000 with the same one. -/
def sharedVoucherSchedule : List (Action Request) :=
  .start (Request.guestSettle 7 "voucher" none) :: steps 0 3 ++
    .start (Request.redeem 8 ⟨5000, "voucher", false⟩ true false) :: steps 1 30 ++ steps 0 10 ++
    steps 1 10

/-- A guest with the number 7 and an account with the number 8. -/
abbrev guestAndBuyer : World :=
  let row : UserRow := ⟨zeroKey, zeroKey, false, none, none, 0, some 0⟩
  .fresh { emptyDb with
    users := ((∅ : Table Uin UserRow).set 7 (some { row with guestStatus := some .proven })).set 8
      (some row) } (.initial 1000)

theorem voucher_granted_once_race :
    let w := guestAndBuyer.play (handler defaults frankTill) sharedVoucherSchedule
    w.shared.ext.grants = [⟨"voucher", .entry⟩] ∧ (w.shared.ext.grants.map Grant.nonce).Nodup := by
  refine ⟨by decide +kernel, ?_⟩
  have hrun : Run (handler defaults frankTill) (fun _ _ => True) guestAndBuyer
      (guestAndBuyer.play (handler defaults frankTill) sharedVoucherSchedule) :=
    .of_play _ (by decide +kernel)
  exact (voucher_granted_once defaults frankTill hrun).1

end RcqServer.Numbers
