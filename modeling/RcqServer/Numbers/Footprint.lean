import RcqServer.Numbers.Server
import RcqServer.ReadCommitted.Transaction

/-!
# Footprints

Which rows each part of a handler writes, with which statements, and what a request does outside
its transaction, for arbitrary sets `W` of writes, `L` of labels and `E` of effects that contain its
own.  Every request is one transaction: up to its commit it only collects writes, and after it
nothing is left that can fail (`handler_atomic`).
-/

namespace RcqServer.Numbers

open ReadCommitted Prog Outline Option

/-! ## Inserts and updates -/

section Rules

variable {ρ : Type} {O : Outline Db Ext Write Label ρ} (hO : O.Coherent) {r : ρ} {l : Label}
  {Q : Unit → List Write → State → Prop} {ws : List Write} {s : State}

include hO

/-- An insert that goes through has found no row. -/
theorem wp_insert {ν : Type} {get : Db → Option ν} {mk : Option ν → Write} {row : Time → ν}
    {conflict : HttpError} (h : ∀ s', O.Rely r (some l) ws s s' → O.Inv s' →
      get (s'.view ws) = none → Q () (ws ++ [mk (some (row s'.ext.now))]) s') :
    O.wp r (insert l get mk row conflict) Q ws s := by
  intro s' hrely hinv _
  rw [Shared.tell_same]
  refine ⟨⟨hinv, hO.guar_refl _ _ _ _⟩, ?_⟩
  cases hget : get (s'.view ws) with
  | some old =>
    simp only [hget, isSome_some, if_true]
    exact fun _ _ _ => trivial
  | none =>
    simp only [hget, isSome_none, Bool.false_eq_true, if_false, getD_none]
    exact h s' hrely hinv hget

/-- An update that goes through has found the row. -/
theorem wp_update {uin : Uin} {f : Time → UserRow → UserRow}
    (h : ∀ s' row, O.Rely r (some .updateUser) ws s s' → O.Inv s' →
      (s'.view ws).users.get uin = some row →
        Q () (ws ++ [.user uin (some (f s'.ext.now row))]) s') :
    O.wp r (updateUser uin f) Q ws s := by
  intro s' hrely hinv _
  rw [Shared.tell_same]
  refine ⟨⟨hinv, hO.guar_refl _ _ _ _⟩, ?_⟩
  cases hget : (s'.view ws).users.get uin with
  | none =>
    simp only [hget, isSome_none, Bool.false_eq_true, if_false]
    exact trivial
  | some row =>
    simp only [hget, isSome_some, if_true, map_some, toList_some]
    exact h s' row hrely hinv hget

omit hO

section Choose

variable {A : List Write → State → Prop} {B : Uin → List Write → State → Prop}
  (htaken : ∀ n exceptInvite ignoreHolds ws s, A ws s →
    O.wp r (uinIsTaken .users n exceptInvite ignoreHolds)
      (fun taken ws s => A ws s ∧ (taken = false → B n ws s)) ws s) (cfg : Config)

include htaken

/-- An allocated number has been asked about and is not reserved. -/
theorem wp_allocateUin_of (draw : ℕ → ℕ) (h : A ws s) : O.wp r (allocateUin cfg draw)
    (fun n ws s => B n ws s ∧ ¬isReservedUin n = true) ws s := by
  suffices hfrom : ∀ tries ws s, A ws s → O.wp r (allocateFrom cfg draw tries)
      (fun n ws s => B n ws s ∧ ¬isReservedUin n = true) ws s from hfrom 100 ws s h
  intro tries
  induction tries with
  | zero => exact fun _ _ _ => trivial
  | succ tries ih =>
    intro ws s h
    simp only [allocateFrom]
    split
    · exact ih ws s h
    · rename_i hordinary
      refine wp_seq (htaken _ _ _ ws s h) fun taken ws s h => ?_
      split
      · exact ih ws s h.1
      · exact ⟨h.2 (by simpa using ‹¬taken = true›), hordinary⟩

/-- The number of a new account has been asked about.  If it is reserved, it was promised or vouched
for. -/
theorem wp_chooseUin_of {body : RegisterIn} {env : RegisterEnv} {reserved : Option Uin}
    {tenure : Bool} (h : A ws s) : O.wp r (chooseUin cfg body env reserved tenure)
      (fun n ws s => B n ws s ∧ (isReservedUin n = true → reserved = some n ∨
        env.proof = .valid ∧ body.desiredUin = some n ∧ tenure = true)) ws s := by
  have hpromised : O.wp r (promisedUin body.invite reserved)
      (fun out ws s => A ws s ∧ ∀ n ∈ out, B n ws s ∧ reserved = some n) ws s := by
    cases reserved with
    | none => exact ⟨h, nofun⟩
    | some n =>
      refine wp_seq (htaken _ _ _ ws s h) ?_
      rintro (_ | _) ws s ⟨h, hfree⟩
      · refine ⟨h, ?_⟩
        rintro _ ⟨⟩
        exact ⟨hfree rfl, rfl⟩
      · exact ⟨h, nofun⟩
  have hdesired : ∀ ws s, A ws s → O.wp r (desiredUin cfg body env tenure)
      (fun out ws s => A ws s ∧ ∀ n ∈ out, B n ws s ∧ (isReservedUin n = true →
        env.proof = .valid ∧ body.desiredUin = some n ∧ tenure = true)) ws s := by
    intro ws s h
    unfold desiredUin
    split
    · rename_i n hn
      split
      · rename_i hmay
        refine wp_seq (htaken _ _ _ ws s h) ?_
        rintro taken ws s ⟨h, hfree⟩
        refine ⟨h, fun m hm => ?_⟩
        obtain ⟨hgiven, hmn⟩ := ite_none_right_eq_some.mp hm
        cases hmn
        obtain ⟨htaken, hvouched⟩ := Bool.and_eq_true_iff.mp hgiven
        refine ⟨hfree (by simpa using htaken), fun hscarce => ⟨hmay.1, hn, ?_⟩⟩
        simpa [hscarce] using hvouched
      · exact ⟨h, nofun⟩
    · exact ⟨h, nofun⟩
  refine wp_seq hpromised ?_
  rintro (_ | n) ws s ⟨h, hn⟩
  · refine wp_seq (hdesired ws s h) ?_
    rintro (_ | n) ws s ⟨h, hn⟩
    · refine wp_mono (wp_allocateUin_of htaken cfg env.draw h) fun n ws s h => ⟨h.1, ?_⟩
      exact fun hscarce => absurd hscarce h.2
    · exact ⟨(hn n rfl).1, fun hscarce => .inr ((hn n rfl).2 hscarce)⟩
  · exact ⟨(hn n rfl).1, fun _ => .inl (hn n rfl).2⟩

end Choose

end Rules

variable {W : Write → Prop} {L : Label → Prop} {l : Label} {uin me : Uin} {door : Door} {ν : Type}

/-! ## Statements -/

theorem clock_part (hl : L l) : (clock l).Part W L := Part.read hl _

theorem insert_part {get : Db → Option ν} {mk : Option ν → Write} {row : Time → ν}
    {conflict : HttpError} (hl : L l) (hW : ∀ row, W (mk (some row))) :
    (insert l get mk row conflict).Part W L := by
  exact ⟨fun v e => ⟨List.forall_mem_singleton.mpr (hW _), rfl, Within.ite trivial trivial⟩,
    hl, fun _ _ => Open.ite ⟨_, rfl⟩ trivial⟩

/-- A statement that writes the row that it finds. -/
theorem found_part {α : Type} {get : Db → Ext → Option ν} {mk : Ext → ν → Write}
    {q : Db → Ext → α} (hl : L l) (hW : ∀ e row, W (mk e row)) :
    (write l (fun db e => ((get db e).map (mk e)).toList) q : Handler α).Part W L := by
  refine Part.write hl fun v e o ho => ?_
  obtain ⟨_, -, rfl⟩ := map_eq_some_iff.mp (mem_toList.mp ho)
  exact hW _ _

/-- A statement that goes through a table. -/
theorem changes_part {table : Db → Table Uin ν} {change : Uin → ν → Option (Option ν)}
    {mk : Uin → Option ν → Write} (hl : L l)
    (hW : ∀ n row new, change n row = some new → W (mk n new)) :
    (write l (fun db _ => ((table db).changes change).map fun c => mk c.1 c.2) fun _ _ => () :
      Handler Unit).Part W L := by
  refine Part.write hl fun v _ o ho => ?_
  obtain ⟨⟨n, row⟩, hchange, rfl⟩ := List.mem_map.mp ho
  obtain ⟨old, -, heq⟩ := Table.mem_changes.mp hchange
  exact hW _ _ _ heq

theorem drop_part {get : Db → Option ν} {mk : Option ν → Write} (hl : L l) (hW : W (mk none)) :
    (drop l get mk).Part W L :=
  found_part hl fun _ _ => hW

theorem updateUser_part {f : Time → UserRow → UserRow} (hl : L .updateUser)
    (hW : ∀ row, W (.user uin (some row))) : (updateUser uin f).Part W L := by
  refine ⟨fun v e => ⟨fun o ho => ?_, rfl, Within.ite trivial trivial⟩,
    hl, fun _ _ => Open.ite trivial trivial⟩
  obtain ⟨_, -, rfl⟩ := map_eq_some_iff.mp (mem_toList.mp ho)
  exact hW _

theorem lockUser_part (hl : L l) (hW : ∀ row, W (.user uin (some row))) :
    (lockUser l uin).Part W L :=
  found_part hl fun _ _ => hW _

theorem ownedUins_part {owner : Uin} (hl : L l) : (ownedUins l owner).Part W L := Part.read hl _

theorem refuseFull_part (hl : L l) : (refuseFull l me).Part W L :=
  (ownedUins_part hl).bind fun _ => Part.raiseIf

theorem moveDeed_part {seller buyer : Uin} (hl : L l) (hW : ∀ row, W (.deed uin (some row))) :
    (moveDeed l uin seller buyer).Part W L :=
  found_part hl fun _ _ => hW _

theorem activeUser_part (hl : L l) : (activeUser l me).Part W L := by
  refine (Part.read hl _).bind ?_
  rintro (_ | row)
  · exact part_raise
  · exact Part.raiseIf.bind fun _ => part_ret

theorem listingHeld_part (hl : L .getHold) : (listingHeld uin).Part W L := Part.read hl _

/-! ## Is a number spoken for? -/

theorem liveHold_part (hl : L (.check door uin .hold)) (ignoreHolds : Bool) :
    (liveHold door uin ignoreHolds).Part W L :=
  Part.ite part_ret (Part.read hl _)

theorem uinIsTaken_part (hl : ∀ part, L (.check door uin part)) (exceptInvite : Option InviteCode)
    (ignoreHolds : Bool) : (uinIsTaken door uin exceptInvite ignoreHolds).Part W L := by
  refine (Part.read (hl _) _).bind fun _ => Part.ite part_ret ?_
  refine (Part.read (hl _) _).bind fun _ => Part.ite part_ret ?_
  refine (liveHold_part (hl _) _).bind fun _ => Part.ite part_ret ?_
  exact Part.read (hl _) _

section Choose

variable (hl : ∀ uin part, L (.check .users uin part))

include hl

theorem allocateUin_part (cfg : Config) (draw : ℕ → ℕ) : (allocateUin cfg draw).Part W L := by
  suffices hfrom : ∀ tries, (allocateFrom cfg draw tries).Part W L from hfrom 100
  intro tries
  induction tries with
  | zero => exact part_raise
  | succ tries ih =>
    refine Part.ite ih ((uinIsTaken_part (hl _) _ _).bind fun _ => ?_)
    exact Part.ite ih part_ret

theorem chooseUin_part (cfg : Config) (body : RegisterIn) (env : RegisterEnv)
    (reserved : Option Uin) (tenure : Bool) :
    (chooseUin cfg body env reserved tenure).Part W L := by
  have hpromised : (promisedUin body.invite reserved).Part W L := by
    cases reserved with
    | none => exact part_ret
    | some n => exact (uinIsTaken_part (hl _) _ _).bind fun _ => part_ret
  have hdesired : (desiredUin cfg body env tenure).Part W L := by
    unfold desiredUin
    cases body.desiredUin with
    | none => exact part_ret
    | some n =>
      exact Part.ite ((uinIsTaken_part (hl _) _ _).bind fun _ => part_ret) part_ret
  refine hpromised.bind ?_
  rintro (_ | n)
  · refine hdesired.bind ?_
    rintro (_ | n)
    · exact allocateUin_part hl cfg env.draw
    · exact part_ret
  · exact part_ret

end Choose

/-! ## Vouchers and invites -/

theorem spendVoucher_part {nonce : Nonce} (hl : L l) (hW : ∀ row, W (.spent nonce (some row))) :
    (spendVoucher l nonce).Part W L :=
  insert_part hl hW

theorem redeemEntry_part (hclock : L .clock) (hspend : L .spend)
    (hW : ∀ nonce row, W (.spent nonce (some row))) (till : Till) (code : String) :
    (redeemEntry till code).Part W L := by
  refine Part.ite part_ret ((clock_part hclock).bind fun now => ?_)
  split
  · exact (spendVoucher_part hspend (hW _)).bind fun _ => part_ret
  · exact Part.ite part_raise part_ret

section Invites

variable (huse : L .useInvite) (hget : L .getInvite)
  (hW : ∀ code row, W (.invite code (some row)))

include huse hW in
theorem consumeInvite_part (code : InviteCode) (needsUin : Bool) :
    (consumeInvite code needsUin).Part W L :=
  found_part huse fun _ _ => hW _ _

include hget in
theorem inviteUin_part (code : InviteCode) : (inviteUin code).Part W L := Part.read hget _

include huse hget hW

theorem passGate_part (policy : Policy) (code : InviteCode) (resident : Bool) :
    (passGate policy code resident).Part W L := by
  refine Part.ite (Part.ite part_raise ?_) (Part.ite part_ret ?_)
  · exact (consumeInvite_part huse hW _ _).bind fun _ =>
      Part.ite (inviteUin_part hget _) part_raise
  · exact (consumeInvite_part huse hW _ _).bind fun _ =>
      Part.ite (inviteUin_part hget _) part_ret

theorem settleGate_part (code : InviteCode) (policy : Option Policy) :
    (settleGate code policy).Part W L := by
  refine Part.ite ?_ ?_
  · refine (inviteUin_part hget _).bind fun _ => Part.raiseIf.bind fun _ => ?_
    exact (consumeInvite_part huse hW _ _).bind fun _ => Part.raiseIf
  · cases policy with
    | none => exact part_raise
    | some policy => exact Part.raiseIf

end Invites

theorem refuseTakenKey_part (hl : L .getKey) (proven : Bool) (key : KeyText) :
    (refuseTakenKey proven key).Part W L :=
  Part.ite part_ret ((Part.read hl _).bind fun _ => Part.raiseIf)

theorem guestToConvert_part (hl : L .getGuest) (proof : KeyProof) (key : KeyText) :
    (guestToConvert proof key).Part W L :=
  Part.ite (Part.read hl _) part_ret

theorem checkKey_part (text : KeyText) (field : String) : (checkKey text field).Part W L := by
  unfold checkKey
  split
  · exact part_ret
  · exact part_raise

/-! ## The move -/

section Move

variable {oldUin targetUin : Uin}

theorem rekeyDeeds_part (hl : L l) (hD : ∀ n row, W (.deed n (some row))) :
    (rekeyDeeds l oldUin targetUin).Part W L := by
  refine changes_part hl fun n row new heq => ?_
  obtain ⟨-, heq⟩ := ite_none_right_eq_some.mp heq
  obtain rfl := some.inj heq
  exact hD _ _

theorem rekeyListings_part (hl : L l) (hL : ∀ n row, W (.listing n (some row))) :
    (rekeyListings l oldUin targetUin).Part W L := by
  refine changes_part hl fun n row new heq => ?_
  obtain ⟨-, heq⟩ := ite_none_right_eq_some.mp heq
  obtain rfl := some.inj heq
  exact hL _ _

theorem keepVacated_part {l : TakePart → Label} (hl : ∀ part, L (l part))
    (hW : ∀ row, W (.deed oldUin (some row))) : (keepVacated l oldUin targetUin).Part W L := by
  refine (Part.read (hl _) _).bind ?_
  rintro (_ | deed)
  · exact Part.onlyIf (insert_part (hl _) hW)
  · exact part_ret

theorem moveRows_part (hl : ∀ part, L (.take door targetUin part))
    (hold : ∀ row, W (.user oldUin row)) (htarget : ∀ row, W (.user targetUin (some row)))
    (hD : ∀ n row, W (.deed n (some row))) (hL : ∀ n row, W (.listing n (some row)))
    (user : UserRow) : (moveRows door user oldUin targetUin).Part W L := by
  refine (lockUser_part (hl _) fun _ => hold _).bind fun _ => Part.raiseIf.bind fun _ => ?_
  refine (insert_part (hl _) htarget).bind fun _ => (rekeyDeeds_part (hl _) hD).bind fun _ => ?_
  refine (rekeyListings_part (hl _) hL).bind fun _ => ?_
  refine (keepVacated_part hl (hD _)).bind fun _ => ?_
  exact drop_part (hl _) (hold none)

end Move

theorem checkTarget_part (shopEnabled : Bool) (me uin : Uin) :
    (checkTarget shopEnabled me uin).Part W L :=
  Part.raiseIf.bind fun _ => Part.raiseIf.bind fun _ => Part.raiseIf

theorem dropDeeds_part (hl : L .dropDeeds) (hD : ∀ n row, W (.deed n row)) :
    (dropDeeds me).Part W L :=
  changes_part hl fun _ _ _ _ => hD _ _

theorem dropListings_part (hl : L .dropListings) (hL : ∀ n row, W (.listing n row)) :
    (dropListings me).Part W L :=
  changes_part hl fun _ _ _ _ => hL _ _

attribute [simp] clock_part insert_part drop_part updateUser_part lockUser_part ownedUins_part
  refuseFull_part moveDeed_part activeUser_part listingHeld_part liveHold_part uinIsTaken_part
  allocateUin_part chooseUin_part spendVoucher_part redeemEntry_part consumeInvite_part
  inviteUin_part passGate_part settleGate_part refuseTakenKey_part guestToConvert_part
  checkKey_part rekeyDeeds_part rekeyListings_part keepVacated_part moveRows_part
  checkTarget_part dropDeeds_part dropListings_part

/-! ## Requests -/

variable {E : Ext → Ext → Prop} (hE : ∀ e, E e e)

include hE

theorem commitOnly_whole (l : Label) : (commitOnly l : Handler Unit).Whole W E :=
  Whole.commit hE trivial trivial

section Requests

variable (hU : ∀ n row, W (.user n row)) (hD : ∀ n row, W (.deed n row))
  (hL : ∀ n row, W (.listing n row)) (hhand : ∀ e n door, E e (e.hand n door))

include hD hhand in
theorem grantUin_whole (body : GrantUinIn) : (grantUin body).Whole W E := by
  refine .read hE fun _ => .raiseIf ?_
  refine .read hE fun _ => .raiseIf ?_
  refine .read hE fun _ => .raiseIf ?_
  refine .read hE fun _ => .raiseIf ?_
  refine (insert_part trivial fun _ => hD _ _).whole hE fun _ => ?_
  exact Whole.commit (fun e => hhand e _ _) (Within.read hE) fun _ _ => trivial

include hU hD hL in
theorem performMigration_whole (door : Door) (user : UserRow) (oldUin targetUin : Uin)
    {x : Ext → Ext} (hx : ∀ e, E e (x e)) :
    (performMigration door user oldUin targetUin x).Whole W E := by
  rw [performMigration_eq]
  refine (moveRows_part (fun _ => trivial) (fun _ => hU _ _) (fun _ => hU _ _) (fun _ _ => hD _ _)
    (fun _ _ => hL _ _) user).whole hE fun _ => ?_
  exact Whole.commit hx trivial trivial

/-- The answer at the end of a purchase. -/
private theorem owned_within {α : Type} (owner : Uin) (f : List Uin → α) :
    ((ownedUins .ownedUins owner).bind fun owned => .ret (f owned)).Within W E :=
  (Within.read hE).bind fun _ => trivial

include hU hD hL in
theorem take_whole (door : Door) (user : UserRow) (owner target : Uin) (switch : Bool)
    (source : Source) {x : Ext → Ext} (hx : ∀ e, E e (x e)) :
    (take door user owner target switch source x).Whole W E := by
  refine Whole.ite ?_ ?_
  · exact (performMigration_whole hE hU hD hL door user owner target hx).bind
      (fun _ => owned_within hE _ _) fun _ _ _ => trivial
  · refine (ownedUins_part trivial).whole hE fun _ => .raiseIf ?_
    refine (insert_part trivial fun _ => hD _ _).whole hE fun _ => ?_
    exact Whole.commit hx (owned_within hE _ _) fun _ _ => trivial

include hU hD hL hhand in
theorem claim_whole (me : Uin) (body : ClaimIn) (shopEnabled : Bool) :
    (claim me body shopEnabled).Whole W E := by
  refine (checkTarget_part _ _ _).whole hE fun _ => .raiseIf ?_
  refine (uinIsTaken_part (fun _ => trivial) _ _).whole hE fun _ => ?_
  refine .raiseIf ((activeUser_part trivial).whole hE fun user => ?_)
  refine (Part.onlyIf (refuseFull_part trivial)).whole hE fun _ => ?_
  exact take_whole hE hU hD hL _ _ _ _ _ _ fun e => hhand e _ _

include hU hD hL in
theorem activate_whole (me uin : Uin) : (activate me uin).Whole W E := by
  refine .read hE fun _ => .raiseIf ?_
  refine .read hE fun _ => .raiseIf ?_
  refine (activeUser_part trivial).whole hE fun user => ?_
  exact take_whole hE hU hD hL _ _ _ _ _ _ hE

include hU hD hL hhand in
theorem migrate_whole (cfg : Config) (me : Uin) (cooldown : Bool) (draw : ℕ → ℕ) :
    (migrate cfg me cooldown draw).Whole W E := by
  refine (lockUser_part trivial fun _ => hU _ _).whole hE ?_
  rintro (_ | row)
  · exact whole_raise
  · refine .raiseIf (.raiseIf ?_)
    refine (allocateUin_part (fun _ _ => trivial) _ _).whole hE fun target => ?_
    exact performMigration_whole hE hU hD hL _ _ _ _ fun e => hhand e _ _

include hL in
theorem createListing_whole (me : Uin) (body : ListingIn) (listingId : String)
    (shopEnabled resaleEnabled : Bool) :
    (createListing me body listingId shopEnabled resaleEnabled).Whole W E := by
  refine .raiseIf (.raiseIf ?_)
  refine .raiseIf (.raiseIf ?_)
  refine .raiseIf (.read hE fun _ => ?_)
  refine .raiseIf (.read hE ?_)
  rintro (_ | existing)
  · exact (insert_part trivial fun _ => hL _ _).whole hE fun _ => commitOnly_whole hE _
  · refine (listingHeld_part trivial).whole hE fun _ => .raiseIf ?_
    refine (found_part trivial fun _ _ => hL _ _).whole hE fun _ => ?_
    exact .raiseIf (commitOnly_whole hE _)

include hL in
theorem deleteListing_whole (me uin : Uin) : (deleteListing me uin).Whole W E := by
  refine .read hE fun _ => .raiseIf ?_
  refine (listingHeld_part trivial).whole hE fun _ => .raiseIf ?_
  exact (drop_part trivial (hL _ _)).whole hE fun _ => commitOnly_whole hE _

include hD in
theorem release_whole (me uin : Uin) : (release me uin).Whole W E := by
  refine .read hE fun _ => .raiseIf ?_
  refine .raiseIf (.read hE fun _ => ?_)
  refine .raiseIf ((drop_part trivial (hD _ _)).whole hE fun _ => ?_)
  exact (commitOnly_whole hE _).bind (fun _ => Within.read hE) fun _ _ _ => trivial

include hU hD hL in
theorem burn_whole (me : Uin) : (burn me).Whole W E := by
  refine .read hE fun _ => .raiseIf ?_
  refine (dropDeeds_part trivial hD).whole hE fun _ => ?_
  refine (dropListings_part trivial hL).whole hE fun _ => ?_
  exact (drop_part trivial (hU _ _)).whole hE fun _ => commitOnly_whole hE _

variable (hS : ∀ nonce row, W (.spent nonce row)) (hH : ∀ n row, W (.hold n row))
  (hI : ∀ code row, W (.invite code row)) (hgrant : ∀ e nonce kind, E e (e.grant nonce kind))

include hgrant in
theorem grantEntry_within (voucher : Option Nonce) (e : Ext) : E e (e.grantEntry voucher) := by
  cases voucher with
  | none => exact hE e
  | some nonce => exact hgrant e nonce .entry

include hU hS hI hgrant in
theorem register_whole (cfg : Config) (till : Till) (body : RegisterIn) (env : RegisterEnv)
    (hboth : ∀ e voucher uin, E e ((e.grantEntry voucher).hand uin .users)) :
    (register cfg till body env).Whole W E := by
  refine (checkKey_part _ _).whole hE fun _ => (checkKey_part _ _).whole hE fun _ => ?_
  refine .raiseIf (.raiseIf ?_)
  split
  · exact whole_raise
  refine (refuseTakenKey_part trivial _ _).whole hE fun _ => ?_
  refine (redeemEntry_part trivial trivial (fun _ _ => hS _ _) _ _).whole hE fun voucher => ?_
  refine (passGate_part trivial trivial (fun _ _ => hI _ _) _ _ _).whole hE fun _ => ?_
  refine (guestToConvert_part trivial _ _).whole hE fun guest => ?_
  split
  · refine .raiseIf (.raiseIf ?_)
    refine (updateUser_part trivial fun _ => hU _ _).whole hE fun _ => ?_
    exact Whole.commit (grantEntry_within hE hgrant voucher) trivial trivial
  · refine (chooseUin_part (fun _ _ => trivial) _ _ _ _ _).whole hE fun uin => ?_
    refine (insert_part trivial fun _ => hU _ _).whole hE fun _ => ?_
    exact Whole.commit (fun e => hboth e _ _) trivial trivial

include hU hS hI hgrant in
theorem guestSettle_whole (till : Till) (me : Uin) (code : String) (policy : Option Policy) :
    (guestSettle till me code policy).Whole W E := by
  refine .read hE fun user => ?_
  split
  · exact whole_raise
  refine .raiseIf ?_
  refine (redeemEntry_part trivial trivial (fun _ _ => hS _ _) _ _).whole hE fun voucher => ?_
  refine (Part.onlyIf (settleGate_part trivial trivial (fun _ _ => hI _ _) _ _)).whole hE
    fun _ => ?_
  refine (updateUser_part trivial fun _ => hU _ _).whole hE fun _ => ?_
  exact Whole.commit (grantEntry_within hE hgrant voucher) trivial trivial

include hU hS hgrant in
theorem residencyRedeem_whole (till : Till) (me : Uin) (voucher : String) :
    (residencyRedeem till me voucher).Whole W E := by
  refine .read hE fun user => ?_
  split
  · exact whole_raise
  refine .raiseIf (.raiseIf ?_)
  refine (clock_part trivial).whole hE fun now => ?_
  split
  · exact whole_raise
  · refine (spendVoucher_part trivial fun _ => hS _ _).whole hE fun _ => ?_
    refine (updateUser_part trivial fun _ => hU _ _).whole hE fun _ => ?_
    exact Whole.commit (fun e => hgrant e _ _) trivial trivial

include hU hD hL hS hH hgrant in
theorem redeemResale_whole (till : Till) (user : UserRow) (me : Uin) (listing : Listing)
    (body : RedeemIn) : (redeemResale till user me listing body).Whole W E := by
  refine .raiseIf ?_
  refine (Part.onlyIf (refuseFull_part trivial)).whole hE fun _ => ?_
  refine (clock_part trivial).whole hE fun now => ?_
  split
  · exact whole_raise
  refine .raiseIf (.raiseIf ?_)
  refine (spendVoucher_part trivial fun _ => hS _ _).whole hE fun _ => ?_
  refine (moveDeed_part trivial fun _ => hD _ _).whole hE fun _ => ?_
  refine .raiseIf ((drop_part trivial (hL _ _)).whole hE fun _ => ?_)
  refine (drop_part trivial (hH _ _)).whole hE fun _ => Whole.ite ?_ ?_
  · refine (take_whole hE hU hD hL _ _ _ _ _ _ fun e => hgrant e _ _).bind (fun _ => ?_)
      fun _ => trivial
    exact ⟨hE, trivial⟩
  · exact Whole.commit (fun e => hgrant e _ _) (owned_within hE _ _) fun _ _ => trivial

include hU hD hL hS hH hgrant in
theorem redeem_whole (till : Till) (me : Uin) (body : RedeemIn) (shopEnabled resaleEnabled : Bool)
    (hboth : ∀ e nonce uin, E e ((e.grant nonce .number).hand uin .deeds)) :
    (redeem till me body shopEnabled resaleEnabled).Whole W E := by
  refine (checkTarget_part _ _ _).whole hE fun _ => (activeUser_part trivial).whole hE fun user => ?_
  refine .read hE fun listing => ?_
  split
  · exact redeemResale_whole hE hU hD hL hS hH hgrant _ _ _ _ _
  refine (clock_part trivial).whole hE fun now => ?_
  split
  · exact whole_raise
  refine (uinIsTaken_part (fun _ => trivial) _ _).whole hE fun _ => ?_
  refine .raiseIf ?_
  refine (spendVoucher_part trivial fun _ => hS _ _).whole hE fun _ => ?_
  refine (drop_part trivial (hH _ _)).whole hE fun _ => ?_
  refine (Part.onlyIf (insert_part trivial fun _ => hD _ _)).whole hE fun _ => ?_
  refine (take_whole hE hU hD hL _ _ _ _ _ _ fun e => hboth e _ _).bind (fun _ => ?_)
    fun _ => trivial
  exact ⟨hE, trivial⟩

end Requests

/-! ## The till -/

theorem tillHold_whole (till : Till) (request : String) (shopEnabled : Bool)
    (hW : ∀ uin row, W (.hold uin row)) : (tillHold till request shopEnabled).Whole W E := by
  refine .raiseIf ((clock_part trivial).whole hE fun now => ?_)
  split
  · exact whole_raise
  rename_i place uin holdId _
  have hanswer : ∀ {p : Handler Unit} {held : Bool}, p.Whole W E →
      (p.bind fun _ => .ret held).Whole W E := fun hp => hp.bind (fun _ => trivial) fun _ => trivial
  refine .read hE fun existing => Whole.ite (hanswer ?_) ?_
  · refine Whole.ite ?_ ⟨trivial, trivial⟩
    exact (drop_part trivial (hW _ _)).whole hE fun _ => commitOnly_whole hE _
  refine .raiseIf (Whole.ite (hanswer ?_) ?_)
  · refine (found_part trivial fun _ _ => hW _ _).whole hE fun _ => ?_
    exact .raiseIf (commitOnly_whole hE _)
  · refine .read hE fun _ => ?_
    refine (Part.onlyIf ((uinIsTaken_part (fun _ => trivial) _ _).bind fun _ =>
      Part.raiseIf)).whole hE fun _ => ?_
    exact (insert_part trivial fun _ => hW _ _).whole hE fun _ => hanswer (commitOnly_whole hE _)

theorem payoutTarget_whole (till : Till) (request sale : String) (env : PayoutEnv)
    (hq : ∀ e uin held, E e (e.quote uin sale held)) :
    (payoutTarget till request sale env).Whole W E := by
  have hanswer : ∀ out, (answerQuote out sale).Whole W E := fun out =>
    ⟨(Within.effect fun _ e => hq e _ _).bind fun _ => trivial, fun _ _ => trivial⟩
  refine .raiseIf ((clock_part trivial).whole hE fun now => ?_)
  split
  · exact whole_raise
  refine .read hE fun listing => ?_
  split
  · exact .raiseIf (hanswer _)
  · unfold quoteStock
    split
    · exact whole_raise
    · refine .raiseIf ?_
      refine (uinIsTaken_part (fun _ => trivial) _ _).whole hE fun _ => ?_
      exact .raiseIf (.raiseIf (hanswer _))

attribute [simp] grantUin_whole claim_whole activate_whole migrate_whole createListing_whole
  deleteListing_whole release_whole burn_whole register_whole guestSettle_whole
  residencyRedeem_whole redeem_whole tillHold_whole payoutTarget_whole

omit hE in
theorem handler_atomic (cfg : Config) (till : Till) (r : Request) : (handler cfg till r).Atomic := by
  have hanswer : ∀ {α : Type} {p : Handler α} (f : α → Answer),
      p.Whole (fun _ => True) (fun _ _ => True) → (p.bind fun a => .ret (f a)).Atomic :=
    fun f hp => hp.2.bind fun _ => trivial
  cases r with
  | tick seconds => exact fun _ _ => trivial
  | _ => exact hanswer _ (by simp)

end RcqServer.Numbers
