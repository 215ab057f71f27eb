import RcqServer.Numbers.Vouchers

/-!
# What an entry voucher buys

`/residency/redeem` and `/auth/guest/settle` take an entry voucher for an account that exists.  The
first refuses an account that is a resident already, the second one that is not a guest, and both do
so before the voucher is touched, so that a second arrival does not pay for nothing.

The question is a plain read, and the row that it reads is not locked.  Two requests of one account
that have both asked before either commits both spend their vouchers: the nonces differ, and the
second `UPDATE` of the account waits for the first and then overwrites it.  Requests whose question
is not followed by somebody else's commit are told apart here from those: `ChecksAlone`.
-/

namespace RcqServer.Numbers

open ReadCommitted Prog Outline List World

/-- `users.resident_since` of an account. -/
def Db.residentSince (db : Db) (me : Uin) : Option Time :=
  (db.users.get me).bind UserRow.residentSince

/-- An account that is still a guest has not become a resident. -/
def Db.GuestNotResident (db : Db) (me : Uin) : Prop :=
  ∀ row, db.users.get me = some row → row.guestStatus.isSome → row.residentSince = none

/-- The nonce has been spent since `db`. -/
def SpentSince (db : Db) (s : State) (nonce : Nonce) : Prop :=
  db.spentVouchers.get nonce = none ∧ (s.db.spentVouchers.get nonce).isSome

/-- Every nonce that comes to be spent is spent as the account comes to be a resident. -/
def SpentOnEntry (me : Uin) (s s' : State) : Prop :=
  ∀ nonce, SpentSince s.db s' nonce →
    s.db.residentSince me = none ∧ (s'.db.residentSince me).isSome

namespace Residency

variable {me : Uin} {db : Db} {r : Request} {l : Label} {ws : List Write} {s s' : State}
  {voucher : Option Nonce}

/-! ## The outline -/

/-- The requests in question: those with which the account enters, and the passing of time. -/
def Enters (me : Uin) : Request → Prop
  | .guestSettle u _ _ => u = me
  | .residencyRedeem u _ => u = me
  | .tick _ => True
  | _ => False

structure Inv (db : Db) (me : Uin) (s : State) : Prop where
  guest : s.db.GuestNotResident me
  /-- Whoever has spent something is a resident, -/
  resident : ∀ nonce, SpentSince db s nonce → (s.db.residentSince me).isSome
  /-- and has spent one voucher. -/
  once : ∀ nonce nonce', SpentSince db s nonce → SpentSince db s nonce' → nonce = nonce'

/-- A request that has read the account can count on a database that stands still. -/
def outline (db : Db) (me : Uin) : Outline Db Ext Write Label Request where
  Inv := Inv db me
  Rely _ l _ s s' := (∃ x ∈ l, x ≠ .getUser) → s'.db = s.db
  Guar _ _ _ s s' := s'.db = s.db ∨ s'.hist ≠ s.hist ∧ SpentOnEntry me s s'
  Start r _ := Enters me r
  Cond _ _ _ := True
  Apart _ _ l' _ := ∀ x ∈ l', x = .getUser

theorem coherent (db : Db) (me : Uin) : (outline db me).Coherent where
  rely_refl _ _ _ _ _ := rfl
  rely_trans _ _ _ _ _ _ h h' hl := (h' hl).trans (h hl)
  guar_refl _ _ _ _ := .inl rfl
  rely_of_guar := by
    rintro r l ws r' l' ws' s s' - hstep - hapart ⟨x, hx, hread⟩
    rcases hstep.guar with hsame | ⟨hcommit, -⟩
    · exact hsame
    · exact absurd (hapart.resolve_left hcommit x hx) hread

/-- The request has found the account outside, and has written at most the row of its voucher. -/
structure Entering (me : Uin) (voucher : Option Nonce) (ws : List Write) (s : State) : Prop where
  outside : s.db.residentSince me = none
  only : ∀ nonce row, Write.spent nonce row ∈ ws → voucher = some nonce
  untouched : ∀ uin row, Write.user uin row ∉ ws

/-- A write that is neither about vouchers nor about accounts. -/
def Aside (o : Write) : Prop := (∀ nonce row, o ≠ .spent nonce row) ∧ ∀ uin row, o ≠ .user uin row

theorem carried (voucher : Option Nonce) :
    (outline db me).Carried r (· ≠ .getUser) Aside (Entering me voucher) where
  stable l ws s s' hl h hrely _ := by
    have hsame : s'.db = s.db := hrely ⟨l, rfl, hl⟩
    exact ⟨hsame ▸ h.outside, h.only, h.untouched⟩
  write ws s new h _ hnew := by
    refine ⟨h.outside, fun nonce row hmem => ?_, fun uin row hmem => ?_⟩
    · rcases mem_append.mp hmem with hmem | hmem
      · exact h.only nonce row hmem
      · exact absurd rfl ((hnew _ hmem).1 nonce row)
    · rcases mem_append.mp hmem with hmem | hmem
      · exact h.untouched uin row hmem
      · exact absurd rfl ((hnew _ hmem).2 uin row)

/-- The account's own row has been written, as a resident's if there is a voucher. -/
structure Entered (me : Uin) (voucher : Option Nonce) (ws : List Write) (s : State) : Prop where
  outside : s.db.residentSince me = none
  only : ∀ nonce row, Write.spent nonce row ∈ ws → voucher = some nonce
  native : (s.view ws).GuestNotResident me
  paid : voucher.isSome → ((s.view ws).residentSince me).isSome

/-- The commit at the end of both requests. -/
theorem step_commit (hinv : Inv db me s) (h : Entered me voucher ws s) (e : Ext) :
    (outline db me).Step r l ws s (s.commit ws e) := by
  -- a nonce that is new is the one of the request
  have hnew : ∀ nonce, (s.db.spentVouchers.get nonce).isSome ∨ voucher = some nonce ∨
      (s.view ws).spentVouchers.get nonce = none := by
    intro nonce
    rcases sets_spentVouchers.get_applyAll ws s.db nonce with hsame | hmem
    · rw [Shared.view, hsame]
      cases s.db.spentVouchers.get nonce with
      | none => exact .inr (.inr rfl)
      | some t => exact .inl rfl
    · exact .inr (.inl (h.only nonce _ hmem))
  -- nothing had been spent while the account was outside
  have hfirst : ∀ nonce, SpentSince db (s.commit ws e) nonce → voucher = some nonce := by
    rintro nonce ⟨hfree, hspent⟩
    rw [Shared.commit_db] at hspent
    rcases hnew nonce with hbefore | hmine | hnone
    · have hres := hinv.resident nonce ⟨hfree, hbefore⟩
      rw [h.outside] at hres
      cases hres
    · exact hmine
    · rw [hnone] at hspent
      cases hspent
  refine ⟨⟨h.native, fun nonce hspent => h.paid ?_, fun nonce nonce' hspent hspent' => ?_⟩,
    .inr ⟨cons_ne_self _ _, ?_⟩⟩
  · rw [hfirst nonce hspent]
    rfl
  · exact Option.some.inj ((hfirst nonce hspent).symm.trans (hfirst nonce' hspent'))
  · rintro nonce ⟨hfree, hspent⟩
    rw [Shared.commit_db] at hspent
    refine ⟨h.outside, h.paid ?_⟩
    rcases hnew nonce with hbefore | hmine | hnone
    · rw [hfree] at hbefore
      cases hbefore
    · rw [hmine]
      rfl
    · rw [hnone] at hspent
      cases hspent

/-! ## Rules -/

/-- A part of a request that does not write the account and spends nothing. -/
theorem wp_carry {α β : Type} {p : Handler α} {f : α → Handler β}
    {R : β → List Write → State → Prop} (hp : p.Part Aside (· ≠ .getUser))
    (h : Entering me voucher ws s)
    (hf : ∀ a ws s, Entering me voucher ws s → (outline db me).wp r (f a) R ws s) :
    (outline db me).wp r (p.bind f) R ws s :=
  wp_part_bind (coherent db me) (carried voucher) hp h hf

theorem wp_spendVoucher {nonce : Nonce} (h : Entering me none ws s) :
    (outline db me).wp r (spendVoucher .spend nonce)
      (fun _ ws s => Entering me (some nonce) ws s) ws s := by
  refine wp_insert (coherent db me) fun s' hrely hinv _ => ?_
  have hnow : Entering me none ws s' :=
    (carried (r := r) none).stable .spend ws s s' (by decide) h hrely hinv
  refine ⟨hnow.outside, fun other row hmem => ?_, fun uin row hmem => ?_⟩
  · rcases mem_append.mp hmem with hmem | hmem
    · exact absurd (hnow.only other row hmem) (by simp)
    · cases mem_singleton.mp hmem
      rfl
  · exact (mem_append.mp hmem).elim (hnow.untouched uin row) (by simp)

theorem wp_redeemEntry {till : Till} {code : String} (h : Entering me none ws s) :
    (outline db me).wp r (redeemEntry till code)
      (fun voucher ws s => Entering me voucher ws s) ws s := by
  unfold redeemEntry
  split
  · exact h
  refine wp_carry (by simp) h fun now ws s h => ?_
  split
  · exact wp_seq (wp_spendVoucher h) fun _ _ _ h => h
  · split
    · exact trivial
    · exact h

/-- The `UPDATE` of the account and the commit. -/
theorem wp_enter {f : Time → UserRow → UserRow} {x : Ext → Ext} (h : Entering me voucher ws s)
    (hguest : ∀ now row, (f now row).guestStatus = none)
    (hpaid : voucher.isSome → ∀ now row, ((f now row).residentSince).isSome) :
    (outline db me).Safe r ((updateUser me f).bind fun _ => .commit .commit x (.ret ())) ws s := by
  refine wp_bind.mpr (wp_update (coherent db me) fun s' row hrely hinv _ => ?_)
  have hnow : Entering me voucher ws s' :=
    (carried (r := r) voucher).stable .updateUser ws s s' (by decide) h hrely hinv
  -- the row is locked from here on, and the others stand still in any case
  intro s'' hrely' hinv' _
  have hsame : s''.db = s'.db := hrely' ⟨.commit, rfl, by decide⟩
  have hview : (s''.view (ws ++ [.user me (some (f s'.ext.now row))])).users.get me =
      some (f s'.ext.now row) := by
    rw [Shared.view, applyAll_concat]
    exact Table.get_set_self _ _ _
  have hentered : Entered me voucher (ws ++ [.user me (some (f s'.ext.now row))]) s'' := by
    refine ⟨?_, fun nonce t hmem => ?_, ?_, ?_⟩
    · rw [hsame]
      exact hnow.outside
    · exact (mem_append.mp hmem).elim (hnow.only nonce t) (by simp)
    · intro row' hrow' hguest'
      cases hview.symm.trans hrow'
      rw [hguest] at hguest'
      cases hguest'
    · intro hv
      exact (congrArg (fun o => (o.bind UserRow.residentSince).isSome) hview).trans
        (hpaid hv _ _)
  exact ⟨step_commit hinv' hentered _, trivial⟩

/-! ## The two doors -/

/-- The question at the beginning of both requests. -/
theorem wp_getUser {β : Type} {f : Option UserRow → Handler β}
    (h : ∀ s, Inv db me s → (outline db me).Safe r (f (s.db.users.get me)) [] s) :
    (outline db me).Safe r ((read .getUser fun db _ => db.users.get me).bind f) [] s :=
  wp_bind.mpr (wp_read (coherent db me) fun s' _ hinv _ => h s' hinv)

theorem guestSettle_safe {till : Till} {code : String} {policy : Option Policy} :
    (outline db me).Safe r (guestSettle till me code policy) [] s := by
  refine wp_getUser fun s hinv => ?_
  cases hrow : s.db.users.get me with
  | none => exact trivial
  | some row =>
    refine wp_raiseIf_bind fun hguest => ?_
    -- a guest has not paid yet
    have hout : s.db.residentSince me = none := by
      rw [Db.residentSince, hrow]
      exact hinv.guest row hrow (Option.isSome_iff_ne_none.mpr hguest)
    have h : Entering me none [] s :=
      ⟨hout, nofun, fun _ _ => not_mem_nil⟩
    refine wp_seq (wp_redeemEntry h) fun voucher ws s h => ?_
    refine wp_carry (by simp [Aside.eq_def]) h fun _ ws s h => ?_
    refine wp_enter h (fun _ _ => rfl) fun hv now row => ?_
    simp [hv]

theorem residencyRedeem_safe {till : Till} {code : String} :
    (outline db me).Safe r (residencyRedeem till me code) [] s := by
  refine wp_getUser fun s hinv => ?_
  cases hrow : s.db.users.get me with
  | none => exact trivial
  | some row =>
    refine wp_raiseIf_bind fun _ => wp_raiseIf_bind fun hres => ?_
    have hout : s.db.residentSince me = none := by
      rw [Db.residentSince, hrow]
      simpa using hres
    have h : Entering me none [] s :=
      ⟨hout, nofun, fun _ _ => not_mem_nil⟩
    refine wp_carry (by simp) h fun now ws s h => ?_
    split
    · exact trivial
    refine wp_seq (wp_spendVoucher h) fun _ ws s h => ?_
    exact wp_enter h (fun _ _ => rfl) fun _ _ _ => rfl

theorem handler_safe (db : Db) (cfg : Config) (till : Till) (r : Request) (s : State)
    (hr : Enters me r) : (outline db me).Safe r (handler cfg till r) [] s := by
  cases r with
  | guestSettle u code policy =>
    cases hr
    exact safe_map guestSettle_safe _
  | residencyRedeem u voucher =>
    cases hr
    exact safe_map residencyRedeem_safe _
  | tick seconds =>
    intro s' _ hinv _
    exact ⟨⟨⟨hinv.guest, hinv.resident, hinv.once⟩, .inl rfl⟩, trivial⟩
  | _ => exact hr.elim

end Residency

/-! ## Conditions on a schedule -/

/-- Only the requests in question are made. -/
def OnlyEnters (me : Uin) : Action Request → Prop
  | .start r => Residency.Enters me r
  | _ => True

/-- No request commits while another one has read the account and is not done. -/
def ChecksAlone (w : World) : Action Request → Prop
  | .step k => w.committing k → ∀ j < w.sessions.length, j ≠ k → ∀ y ∈ w.upcoming j,
      y.2 = .getUser
  | _ => True

instance : DecidableRel Residency.Enters := by
  rintro me (_ | _) <;> unfold Residency.Enters <;> infer_instance

instance : DecidableRel OnlyEnters := by
  rintro me (_ | _) <;> unfold OnlyEnters <;> infer_instance

instance : DecidableRel ChecksAlone := by
  rintro w (_ | _) <;> unfold ChecksAlone <;> infer_instance

private theorem allows_of_checksAlone (db : Db) {me : Uin} {w : World} {a : Action Request}
    (honly : OnlyEnters me a) (h : ChecksAlone w a) : (Residency.outline db me).Allows w a := by
  cases a with
  | start r => exact honly
  | kill k => exact trivial
  | step k =>
    intro r p ws hk
    refine ⟨fun _ _ => trivial, fun hcommit l hl j r' p' ws' hj hother l' hl' => ?_⟩
    exact h (committing_of_running hk hcommit) j
      (List.getElem?_eq_some_iff.mp hother).1 hj _ (upcoming_of_running hother hl')

/-- **An entry voucher is spent by the request that makes the account a resident**, and so one at
most, in every run of the account's requests in which none of them commits while another has read
the account and is not done, from a store in which the account is not a guest and a resident at
once. -/
theorem voucher_spent_on_entry (cfg : Config) (till : Till) (me : Uin) {db : Db} {now : Time}
    {w : World} (hguest : db.GuestNotResident me)
    (hrun : Run (handler cfg till) (fun w a => OnlyEnters me a ∧ ChecksAlone w a)
      (.fresh db (.initial now)) w) :
    (∀ n w', ChecksAlone w (.step n) → w.next (handler cfg till) (.step n) = some w' →
      SpentOnEntry me w.shared w'.shared) ∧
    ∀ nonce nonce', SpentSince db w.shared nonce → SpentSince db w.shared nonce' →
      nonce = nonce' := by
  have hunspent : ∀ nonce, ¬SpentSince db ⟨db, .initial now, []⟩ nonce := by
    rintro nonce ⟨hfree, hspent⟩
    rw [hfree] at hspent
    cases hspent
  have hinit : Residency.Inv db me ⟨db, .initial now, []⟩ :=
    ⟨hguest, fun nonce h => absurd h (hunspent nonce), fun nonce _ h => absurd h (hunspent nonce)⟩
  have hruns := Run.mono (fun _ _ h => allows_of_checksAlone db h.1 h.2) hrun
  have hsafe := fun r s (_ : Residency.Inv db me s) (hr : Residency.Enters me r) =>
    Residency.handler_safe db cfg till r s hr
  have hinv := inv_of_run (Residency.coherent db me) hsafe hinit hruns
  refine ⟨fun n w' halone hstep => ?_, hinv.once⟩
  rcases step_of_run (Residency.coherent db me) hsafe hinit hruns
    (allows_of_checksAlone db trivial halone) hstep with hsame | ⟨r, l, ws, -, -, hdone⟩
  · rintro nonce ⟨hfree, hspent⟩
    rw [hsame, hfree] at hspent
    cases hspent
  · rcases hdone.guar with hsame | ⟨-, hentry⟩
    · rintro nonce ⟨hfree, hspent⟩
      rw [hsame, hfree] at hspent
      cases hspent
    · exact hentry

/-- The guest 7 settles with one voucher and redeems another.  The first request takes `before`
steps before the second one is made, and the second one `after` steps at the end. -/
def twoVouchersSchedule (before after : ℕ) : List (Action Request) :=
  .start (Request.guestSettle 7 "one voucher" none) :: steps 0 before ++
    .start (Request.residencyRedeem 7 "another") :: steps 1 2 ++ steps 0 10 ++ steps 1 after

theorem voucher_spent_on_entry_in_turn :
    let w := guestAndBuyer.play (handler defaults frankTill) (twoVouchersSchedule 10 10)
    (w.shared.db.spentVouchers.get "one voucher").isSome ∧
      ∀ nonce nonce', SpentSince guestAndBuyer.shared.db w.shared nonce →
        SpentSince guestAndBuyer.shared.db w.shared nonce' → nonce = nonce' := by
  refine ⟨by decide +kernel, ?_⟩
  have hguest : guestAndBuyer.shared.db.GuestNotResident 7 := by
    intro row hrow _
    cases (by decide +kernel : guestAndBuyer.shared.db.users.get 7 =
      some ⟨zeroKey, zeroKey, false, some .proven, none, 0, some 0⟩).symm.trans hrow
    rfl
  have hrun : Run (handler defaults frankTill)
      (fun w a => OnlyEnters 7 a ∧ ChecksAlone w a) guestAndBuyer
      (guestAndBuyer.play (handler defaults frankTill) (twoVouchersSchedule 10 10)) :=
    .of_play _ (by decide +kernel)
  exact (voucher_spent_on_entry defaults frankTill 7 hguest hrun).2

/-- Both requests have read the account before either commits, and the account pays twice. -/
theorem two_vouchers_spent : ∃ w w' : World,
    Run (handler defaults frankTill) (fun _ a => OnlyEnters 7 a) guestAndBuyer w ∧
      w.next (handler defaults frankTill) (.step 1) = some w' ∧ ¬SpentOnEntry 7 w.shared w'.shared ∧
      SpentSince guestAndBuyer.shared.db w'.shared "one voucher" ∧
      SpentSince guestAndBuyer.shared.db w'.shared "another" := by
  refine ⟨_, guestAndBuyer.play (handler defaults frankTill) (twoVouchersSchedule 1 3),
    .of_play (twoVouchersSchedule 1 2) (by decide +kernel), ?_, fun hentry => ?_, ?_, ?_⟩
  · rfl
  · have hout := (hentry "another" (by constructor <;> decide +kernel)).1
    revert hout
    decide +kernel
  · constructor <;> decide +kernel
  · constructor <;> decide +kernel

end RcqServer.Numbers
