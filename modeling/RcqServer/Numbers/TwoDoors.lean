import RcqServer.Numbers.Handouts

/-!
# One number, two doors: the door of the deeds

A request at this door first finds that nobody answers as the number and then inserts its deed.
Whoever answers as the number from then on has come to it through the deed, which is locked
(`Handouts.Fresh`).
-/

namespace RcqServer.Numbers

open ReadCommitted Prog Outline List Option World

namespace Handouts

variable {n m me : Uin} {r : Request} {ws : List Write} {s : State}

theorem wp_uinIsTaken_deeds {exceptInvite : Option InviteCode} {ignoreHolds : Bool}
    (h : Clear n ws) : (outline n).wp r (uinIsTaken .deeds m exceptInvite ignoreHolds)
      (fun taken ws s => taken = false → AtDeeds n m ws s) ws s := by
  refine wp_read_bind (coherent n) fun s' _ _ _ => ?_
  split
  · exact fun hf => by cases hf
  rename_i hused
  have hat : AtDeeds n m ws s' := by
    refine ⟨h, ?_⟩
    rintro rfl
    left
    rw [← h.users s']
    simpa using hused
  refine wp_atDeeds (by simp) hat fun owned ws s hat => ?_
  split
  · exact fun hf => by cases hf
  refine wp_atDeeds (by simp) hat fun held ws s hat => ?_
  split
  · exact fun hf => by cases hf
  · exact wp_mono (wp_part (coherent n) atDeeds_carried
      (Part.read (past_check (by simp)) _) hat) fun _ _ _ hat _ => hat

/-- The deed is inserted only if the number has none. -/
theorem wp_insertDeed {row : Time → Deed} {conflict : HttpError} (h : AtDeeds n m ws s) :
    (outline n).wp r
      (insert (.take .deeds m .insertDeed) (·.ownedUins.get m) (.deed m) row conflict)
      (fun _ ws s => Taking n m (Fresh n) ws s) ws s := by
  by_cases hm : m = n
  · subst hm
    refine wp_insert (coherent m) fun s' hrely hinv hnone => ?_
    have hnow := atDeeds_carried.stable _ ws s s' (past_take _) h hrely hinv
    have hrow : s'.db.ownedUins.get m = none := (h.clear.ownedUins s').symm.trans hnone
    refine ⟨fun hne => absurd rfl hne, fun _ => ⟨?_, ?_, hrow, ?_⟩⟩
    · intro o ho
      rcases mem_append.mp ho with ho | ho
      · exact ⟨(h.clear o ho).1 none, (h.clear o ho).2 none⟩
      · cases mem_singleton.mp ho
        exact ⟨nofun, nofun⟩
    · exact ⟨_, mem_append_right _ (mem_singleton.mpr rfl)⟩
    · exact (hnow.gate rfl).resolve_right (by simp [hrow])
  · have hinsert : (outline n).wp r
        (insert (.take .deeds m .insertDeed) (·.ownedUins.get m) (.deed m) row conflict)
        (fun _ ws _ => Clear n ws) ws s :=
      wp_part (coherent n) clear_carried (insert_part trivial fun _ => elsewhere_deed hm _) h.clear
    exact wp_mono hinsert fun _ _ _ h => ⟨fun _ => h.aside, fun heq => absurd heq hm⟩

section Commit

variable {α : Type} {x : Ext → Ext} {k : Handler α} {Q : α → List Write → State → Prop}

/-- The commit that hands out the number. -/
theorem wp_commit_fresh (hx : ∀ e, (x e).handouts n = e.handouts n + if m = n then 1 else 0)
    (h : Taking n m (Fresh n) ws s) (hk : ∀ s, (outline n).wp r k Q [] s) :
    (outline n).wp r (.commit (.take .deeds m .commit) x k) Q ws s := by
  intro s' hrely hinv _
  have hnow := (taking_carried fresh_carried).stable _ ws s s' (past_take _) h hrely hinv
  refine ⟨?_, hk _⟩
  by_cases hm : m = n
  · exact step_fresh (hnow.self hm) hinv (by simp [hm]) (by rw [hx, if_pos hm])
  · exact step_aside (hnow.other hm) hinv (by simp [hm])
      (by rw [hx, if_neg hm, Nat.add_zero])

/-- The commit of a sale between accounts. -/
theorem wp_commit_old (hx : ∀ e, (x e).handouts n = e.handouts n) (h : Taking n m (Old n) ws s)
    (hk : ∀ s, (outline n).wp r k Q [] s) :
    (outline n).wp r (.commit (.take .deeds m .commit) x k) Q ws s := by
  intro s' hrely hinv _
  have hnow := (taking_carried old_carried).stable _ ws s s' (past_take _) h hrely hinv
  refine ⟨?_, hk _⟩
  by_cases hm : m = n
  · exact step_old (hnow.self hm) hinv (by simp [hm]) (hx _)
  · exact step_aside (hnow.other hm) hinv (by simp [hm]) (hx _)

end Commit

/-! ## The move -/

section Move

variable {B : List Write → State → Prop}
  (hB : (outline n).Carried r (fun l => l.past n .deeds) (Keeps n) B)

/-- A part of the move that writes only what is allowed. -/
private theorem wp_taking {α β : Type} {p : Handler α} {f : α → Handler β}
    {R : β → List Write → State → Prop}
    (hB : (outline n).Carried r (fun l => l.past n .deeds) (Keeps n) B)
    (hp : p.Part (Allowed n m) fun l => m = n → l.past n .deeds)
    (h : Taking n m B ws s) (hf : ∀ a ws s, Taking n m B ws s → (outline n).wp r (f a) R ws s) :
    (outline n).wp r (p.bind f) R ws s :=
  wp_part_bind (coherent n) (taking_carried hB) hp h hf

private theorem allowed_elsewhere {o : Write} (h : Elsewhere n o) : Allowed n m o :=
  ⟨fun _ => h, h.1 none, h.2 none⟩

include hB in
/-- The deeds of an account are re-keyed: those of other numbers, or of a number that has one. -/
theorem wp_rekeyDeeds {oldUin : Uin} (h : Taking n m B ws s) :
    (outline n).wp r (rekeyDeeds (.take .deeds m .rekeyDeeds) oldUin m)
      (fun _ ws s => Taking n m B ws s) ws s := by
  refine wp_write (coherent n) fun s' hrely hinv _ => ?_
  have hnow := (taking_carried hB).stable _ ws s s' (past_take _) h hrely hinv
  refine ⟨fun hm => ?_, fun hm => hB.write _ _ _ (hnow.self hm) hinv fun o ho => ?_⟩
  · have haside := hnow.other hm
    refine ⟨fun row hmem => ?_, fun row hmem => ?_⟩
    · rcases mem_append.mp hmem with hmem | hmem
      · exact haside.user row hmem
      · obtain ⟨_, -, heq⟩ := mem_map.mp hmem
        cases heq
    · rcases mem_append.mp hmem with hmem | hmem
      · exact haside.deed row hmem
      · obtain ⟨⟨k, row'⟩, hchange, heq⟩ := mem_map.mp hmem
        obtain ⟨rfl, rfl⟩ := Write.deed.inj heq
        obtain ⟨deed, hdeed, hnew⟩ := Table.mem_changes.mp hchange
        obtain ⟨-, hnew⟩ := ite_none_right_eq_some.mp hnew
        cases hnew
        refine ⟨rfl, ?_⟩
        rw [← haside.ownedUins, hdeed]
        rfl
  · obtain ⟨⟨k, row⟩, hchange, rfl⟩ := mem_map.mp ho
    obtain ⟨deed, -, hnew⟩ := Table.mem_changes.mp hchange
    obtain ⟨-, hnew⟩ := ite_none_right_eq_some.mp hnew
    cases hnew
    exact ⟨nofun, nofun⟩

include hB in
theorem wp_moveRows {user : UserRow} (hme : me ≠ n) (h : Taking n m B ws s) :
    (outline n).wp r (moveRows .deeds user me m) (fun _ ws s => Taking n m B ws s) ws s := by
  have hold : ∀ row, Allowed n m (.user me row) := fun row =>
    allowed_elsewhere (elsewhere_user hme row)
  have htarget : ∀ row, Allowed n m (.user m (some row)) := fun row =>
    ⟨fun hm => elsewhere_user hm _, nofun, nofun⟩
  refine wp_taking hB (lockUser_part (past_take _) fun _ => hold _) h fun _ ws s h => ?_
  refine wp_taking hB Part.raiseIf h fun _ ws s h => ?_
  refine wp_taking hB (insert_part (past_take _) htarget) h fun _ ws s h => ?_
  refine wp_seq (wp_rekeyDeeds hB h) fun _ ws s h => ?_
  refine wp_taking hB (rekeyListings_part (past_take _)
    fun _ _ => allowed_elsewhere (elsewhere_listing _ _)) h fun _ ws s h => ?_
  refine wp_taking hB (keepVacated_part (fun part => past_take part)
    fun _ => allowed_elsewhere (elsewhere_deed hme _)) h fun _ ws s h => ?_
  exact wp_part (coherent n) (taking_carried hB) (drop_part (past_take _) (hold none)) h

end Move

/-! ## The requests at the door -/

private theorem wp_ownedUins {α : Type} {owner : Uin} {f : List Uin → α}
    {Q : α → List Write → State → Prop} (hQ : ∀ a s, Q a [] s) :
    (outline n).wp r ((ownedUins .ownedUins owner).bind fun owned => .ret (f owned)) Q [] s :=
  wp_read_bind (coherent n) fun _ _ _ _ => hQ _ _

/-- `_take` into the collection. -/
theorem wp_take_hold {user : UserRow} {source : Source} {x : Ext → Ext}
    (hx : ∀ e, (x e).handouts n = e.handouts n + if m = n then 1 else 0) (h : AtDeeds n m ws s) :
    (outline n).wp r (take .deeds user me m false source x) (fun _ ws _ => ws = []) ws s := by
  refine wp_atDeeds (by simp) h fun _ ws s h => ?_
  refine wp_atDeeds (by simp) h fun _ ws s h => ?_
  refine wp_seq (wp_insertDeed h) fun _ ws s h => ?_
  exact wp_commit_fresh hx h fun s => wp_ownedUins fun _ _ => rfl

/-- `_take` onto the number, with what its commit needs. -/
theorem wp_take_switch {B : List Write → State → Prop} {user : UserRow} {source : Source}
    {x : Ext → Ext} (hB : (outline n).Carried r (fun l => l.past n .deeds) (Keeps n) B)
    (hme : me ≠ n) (hcommit : ∀ {k : Handler PurchaseOut} {ws s}, Taking n m B ws s →
      (∀ s, (outline n).wp r k (fun _ ws _ => ws = []) [] s) →
      (outline n).wp r (.commit (.take .deeds m .commit) x k) (fun _ ws _ => ws = []) ws s)
    (h : Taking n m B ws s) :
    (outline n).wp r (take .deeds user me m true source x) (fun _ ws _ => ws = []) ws s := by
  rw [show take .deeds user me m true source x =
    (performMigration .deeds user me m x).bind fun newUin =>
      (ownedUins .ownedUins newUin).bind fun owned => .ret ⟨some newUin, true, owned⟩ from rfl,
    performMigration_eq, Prog.bind_assoc]
  refine wp_seq (wp_moveRows hB hme h) fun _ ws s h => ?_
  exact hcommit h fun s => wp_ownedUins fun _ _ => rfl

theorem claim_safe {body : ClaimIn} {shop : Bool} (hswitch : body.switch = false)
    (h : Clear n ws) : (outline n).Safe r (claim me body shop) ws s := by
  have hdoor : body.door = .deeds := by simp [ClaimIn.door, hswitch]
  unfold claim
  rw [hdoor, hswitch]
  refine wp_clear (by simp) h fun _ ws s h => ?_
  refine wp_clear (by simp) h fun _ ws s h => ?_
  refine wp_seq (wp_uinIsTaken_deeds h) fun taken ws s h => ?_
  cases taken with
  | true => exact trivial
  | false =>
    have hat : AtDeeds n body.uin ws s := h rfl
    refine wp_atDeeds (by simp) hat fun _ ws s hat => ?_
    refine wp_atDeeds (by simp) hat fun user ws s hat => ?_
    refine wp_atDeeds (by simp) hat fun _ ws s hat => ?_
    exact wp_mono (wp_take_hold (fun e => handouts_hand e _ _ _) hat) fun _ _ _ _ => trivial

theorem grantUin_safe {body : GrantUinIn} (h : Clear n ws) :
    (outline n).Safe r (grantUin body) ws s := by
  refine wp_seq (wp_read (coherent n) (Q := fun used ws s => used = false →
    AtDeeds n body.uin ws s) fun s' _ _ _ hused => ⟨h, ?_⟩) fun used ws s h => ?_
  · intro hm
    left
    rw [← h.users s', ← hm]
    simpa using hused
  cases used with
  | true => exact trivial
  | false =>
    have hat : AtDeeds n body.uin ws s := h rfl
    refine wp_atDeeds (by simp) hat fun _ ws s hat => ?_
    refine wp_atDeeds (by simp) hat fun _ ws s hat => ?_
    refine wp_atDeeds (by simp) hat fun _ ws s hat => ?_
    refine wp_atDeeds (by simp) hat fun _ ws s hat => ?_
    refine wp_atDeeds (by simp) hat fun _ ws s hat => ?_
    refine wp_atDeeds (by simp) hat fun _ ws s hat => ?_
    refine wp_atDeeds (by simp) hat fun _ ws s hat => ?_
    refine wp_seq (wp_insertDeed hat) fun _ ws s h => ?_
    refine wp_commit_fresh (fun e => handouts_hand e _ _ _) h fun s => ?_
    have hread : (outline n).Safe r (read .ownedUins fun db _ =>
        ((db.ownedUins.select fun _ d => d.ownerUin == body.toUin).map Prod.fst).insertionSort
          (· ≤ ·) : Handler (List Uin)) [] s :=
      wp_read (coherent n) fun _ _ _ _ => trivial
    exact hread

/-- The second, empty commit of `redeem`. -/
private theorem wp_commitOnly {α : Type} {a : α} (h : ws = []) :
    (outline n).Safe r ((commitOnly .commit : Handler Unit).bind fun _ => .ret a) ws s := by
  subst h
  intro s' _ hinv _
  have hclear : Clear n [] := nofun
  exact ⟨step_aside hclear.aside hinv (by simp) rfl, trivial⟩

/-- The deed changes hands only if there is one. -/
private theorem wp_moveDeed {seller buyer : Uin} (h : Clear n ws) :
    (outline n).wp r (moveDeed (.take .deeds m .moveDeed) m seller buyer)
      (fun moved ws s => moved = true → Taking n m (Old n) ws s) ws s := by
  refine wp_write (coherent n) fun s' _ _ _ hmoved => ?_
  have hsome : ((s'.view ws).ownedUins.get m).isSome := by
    cases hdeed : (s'.view ws).ownedUins.get m with
    | none => simp [hdeed] at hmoved
    | some deed => rfl
  have hnew : ∀ {W : Write → Prop}, (∀ deed, W (.deed m (some deed))) →
      ∀ o ∈ ((((s'.view ws).ownedUins.get m).filter (·.ownerUin == seller)).map fun deed =>
        Write.deed m (some { deed with ownerUin := buyer, source := .purchase })).toList, W o := by
    intro W hW o ho
    obtain ⟨_, -, rfl⟩ := map_eq_some_iff.mp (mem_toList.mp ho)
    exact hW _
  refine ⟨fun hm => (h.append (hnew fun _ => elsewhere_deed hm _)).aside, ?_⟩
  rintro rfl
  refine ⟨fun o ho => ?_, h.ownedUins s' ▸ hsome⟩
  rcases mem_append.mp ho with ho | ho
  · exact ⟨(h o ho).1 none, (h o ho).2 none⟩
  · exact hnew (W := Keeps m) (fun _ => ⟨fun h => (by cases h), fun h => (by cases h)⟩) o ho

theorem redeemResale_safe {till : Till} {user : UserRow} {listing : Listing} {body : RedeemIn}
    (hme : body.switch = true → me ≠ n) (h : Clear n ws) :
    (outline n).Safe r (redeemResale till user me listing body) ws s := by
  refine wp_clear (by simp) h fun _ ws s h => ?_
  refine wp_clear (by simp) h fun _ ws s h => ?_
  refine wp_clear (by simp) h fun now ws s h => ?_
  split
  · exact trivial
  rename_i nonce listingId priceCents _
  refine wp_clear (by simp) h fun _ ws s h => ?_
  refine wp_clear (by simp) h fun _ ws s h => ?_
  refine wp_clear (by simp) h fun _ ws s h => ?_
  refine wp_seq (wp_moveDeed h) fun moved ws s h => ?_
  cases moved with
  | false => exact trivial
  | true =>
    refine wp_taking old_carried Part.raiseIf (h rfl) fun _ ws s h => ?_
    refine wp_taking old_carried (drop_part (past_take _)
      (allowed_elsewhere (elsewhere_listing _ _))) h fun _ ws s h => ?_
    refine wp_taking old_carried (drop_part (past_take _)
      (allowed_elsewhere (elsewhere_hold _ _))) h fun _ ws s h => ?_
    split
    · rename_i hswitch
      exact wp_seq (wp_take_switch old_carried (hme hswitch)
        (fun h hk => wp_commit_old (fun _ => rfl) h hk) h) fun _ _ _ hws => wp_commitOnly hws
    · exact wp_commit_old (fun _ => rfl) h fun s => wp_ownedUins fun _ _ => trivial

theorem redeem_safe {till : Till} {body : RedeemIn} {shop resale : Bool}
    (hme : body.switch = true → me ≠ n) (h : Clear n ws) :
    (outline n).Safe r (redeem till me body shop resale) ws s := by
  refine wp_clear (by simp) h fun _ ws s h => ?_
  refine wp_clear (by simp) h fun user ws s h => ?_
  refine wp_clear (by simp) h fun listing ws s h => ?_
  split
  · exact redeemResale_safe hme h
  refine wp_clear (by simp) h fun now ws s h => ?_
  split
  · exact trivial
  rename_i nonce _
  refine wp_seq (wp_uinIsTaken_deeds h) fun taken ws s h => ?_
  cases taken with
  | true => exact trivial
  | false =>
    have hat : AtDeeds n body.uin ws s := h rfl
    have hx : ∀ e : Ext, ((e.grant nonce .number).hand body.uin .deeds).handouts n =
        e.handouts n + if body.uin = n then 1 else 0 := fun e => handouts_hand _ _ _ _
    refine wp_atDeeds (by simp) hat fun _ ws s hat => ?_
    refine wp_atDeeds (by simp) hat fun _ ws s hat => ?_
    refine wp_atDeeds (by simp) hat fun _ ws s hat => ?_
    cases hswitch : body.switch with
    | false =>
      refine wp_seq (Q := fun _ ws s => AtDeeds n body.uin ws s) hat fun _ ws s hat => ?_
      exact wp_seq (wp_take_hold hx hat) fun _ _ _ hws => wp_commitOnly hws
    | true =>
      refine wp_seq (wp_insertDeed hat) fun _ ws s h => ?_
      exact wp_seq (wp_take_switch fresh_carried (hme hswitch)
        (fun h hk => wp_commit_fresh hx h hk) h) fun _ _ _ hws => wp_commitOnly hws

theorem handler_safe (cfg : Config) (till : Till) (r : Request) (s : State) (hr : Takes n r) :
    (outline n).Safe r (handler cfg till r) [] s := by
  have h : Clear n [] := nofun
  cases r with
  | register body env => exact safe_map (register_safe h) _
  | claim me body shop => exact safe_map (claim_safe hr h) _
  | redeem me body shop resale => exact safe_map (redeem_safe hr h) _
  | grantUin body => exact safe_map (grantUin_safe h) _
  | tick seconds => exact fun s' _ hinv _ => ⟨⟨⟨hinv.once, hinv.held⟩, .inl rfl⟩, trivial⟩
  | _ => exact hr.elim

end Handouts

/-! ## The system -/

/-- Only requests that take numbers are made. -/
def OnlyTakes (n : Uin) : Action Request → Prop
  | .start r => Takes n r
  | _ => True

/-- No request commits the number into one table while another has already found that table free
of it. -/
def Exclusive (n : Uin) (w : World) : Action Request → Prop
  | .step k => w.committing k → ∀ x ∈ w.upcoming k, ∀ j < w.sessions.length, j ≠ k →
      ∀ y ∈ w.upcoming j, Apart n x.2 y.2
  | _ => True

instance : DecidableRel Takes := by
  rintro n (_ | _) <;> unfold Takes <;> infer_instance

instance : DecidableRel OnlyTakes := by
  rintro n (_ | _) <;> unfold OnlyTakes <;> infer_instance

instance (n : Uin) : DecidableRel (Exclusive n) := by
  rintro w (_ | _) <;> unfold Exclusive <;> infer_instance

private theorem allows_of_exclusive {n : Uin} {w : World} {a : Action Request}
    (htakes : OnlyTakes n a) (h : Exclusive n w a) : (Handouts.outline n).Allows w a := by
  cases a with
  | start r => exact htakes
  | kill k => exact trivial
  | step k =>
    intro r p ws hk
    refine ⟨fun _ _ => trivial, fun hcommit l hl j r' p' ws' hj hother l' hl' => ?_⟩
    exact h (committing_of_running hk hcommit) _ (upcoming_of_running hk hl) j
      (List.getElem?_eq_some_iff.mp hother).1 hj _ (upcoming_of_running hother hl')

/-- **A number is handed out once**, through whatever doors, as long as no request commits it into
one table while another has already found that table free of it. -/
theorem number_handed_once (cfg : Config) (till : Till) (n : Uin) {db : Db} {now : Time} {w : World}
    (hrun : Run (handler cfg till) (fun w a => OnlyTakes n a ∧ Exclusive n w a)
      (.fresh db (.initial now)) w) : w.shared.ext.handed.countP (·.uin == n) ≤ 1 := by
  have hinit : Handouts.Inv n ⟨db, .initial now, []⟩ := ⟨Nat.zero_le 1, nofun⟩
  have hinv : Handouts.Inv n w.shared :=
    inv_of_run (Handouts.coherent n) (fun r s _ hr => Handouts.handler_safe cfg till r s hr) hinit
      (Run.mono (fun _ _ h => allows_of_exclusive h.1 h.2) hrun)
  exact hinv.once

/-- Somebody registers and asks for the number 123456987, which the account 8 claims at the same
time; `before` steps of the claim come before the registration, the rest after it. -/
def doorsSchedule (before : ℕ) : List (Action Request) :=
  .start (Request.claim 8 ⟨123456987, false⟩ true) :: steps 0 before ++
    .start (Request.register ⟨zeroKey, zeroKey, "", some 123456987⟩ ⟨.valid, some .openIsland, false, false,
      fun _ => 5⟩) :: steps 1 30 ++ steps 0 30

/-- A store with the account 8. -/
abbrev oneAccount : World :=
  .fresh { emptyDb with
    users := (∅ : Table Uin UserRow).set 8 (some ⟨zeroKey, zeroKey, false, none, none, 0, some 0⟩) }
    (.initial 1000)

/-- The claim is done before the registration asks. -/
theorem number_handed_once_in_turn :
    let w := oneAccount.play (handler defaults closedTill) (doorsSchedule 30)
    w.shared.ext.handed.countP (·.uin == 123456987) ≤ 1 ∧ w.shared.db.Held 123456987 := by
  intro w
  have hrun : Run (handler defaults closedTill)
      (fun w a => OnlyTakes 123456987 a ∧ Exclusive 123456987 w a) oneAccount w :=
    .of_play _ (by decide +kernel)
  exact ⟨number_handed_once defaults closedTill 123456987 hrun, .inr (by decide +kernel)⟩

/-- The claim has found nobody answering as the number, the registration has found no deed, and
both commit: the number is an account's and in somebody else's collection. -/
theorem number_handed_twice : ∃ w : World,
    Run (handler defaults closedTill) (fun _ a => OnlyTakes 123456987 a) oneAccount w ∧
      w.shared.ext.handed.countP (·.uin == 123456987) = 2 :=
  ⟨_, .of_play (doorsSchedule 1) (by decide +kernel), by decide +kernel⟩

end RcqServer.Numbers
