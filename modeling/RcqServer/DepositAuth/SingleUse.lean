import RcqServer.DepositAuth.Tokens

/-!
# A token is spent once

The mark of a spent token lives for `SPENT_TTL` from the time at which the token was accepted, while
the token itself has no age and stays valid as long as the key that has signed it.  So a token is
spent once as long as nobody presents it again after its mark has lapsed.
-/

namespace RcqServer.DepositAuth

open ReadCommitted Prog Option Function List

variable {Key : Type} {crypto : Crypto Key} {e e' : Ext Key}

/-- A statement that neither marks nor accepts a token. -/
structure Quiet (e e' : Ext Key) : Prop where
  spent : e'.spent = e.spent
  accepted : e'.accepted = e.accepted
  now_le : e.now ≤ e'.now

/-- What the statement of a label does. -/
def Steps (crypto : Crypto Key) : Label Key → Ext Key → Ext Key → Prop
  | .spend token, e, e' => e' = e.spend crypto token
  | _, e, e' => Quiet e e'

theorem Quiet.refl (e : Ext Key) : Quiet e e := ⟨rfl, rfl, le_rfl⟩

theorem issuerKey_follows (generated : Key) : (issuerKey generated).Follows (Steps crypto) := by
  refine Follows.bind (Follows.read Quiet.refl _) fun pem => ?_
  split
  · exact trivial
  · refine Follows.bind (fun _ _ => ⟨⟨rfl, rfl, le_rfl⟩, trivial⟩) fun won => ?_
    refine Follows.ite trivial ?_
    refine Follows.bind (Follows.read Quiet.refl _) fun pem => ?_
    split
    · exact trivial
    · exact trivial

theorem verifyAndConsumeToken_follows (generated : Key) (token : TokenIn) :
    (verifyAndConsumeToken crypto generated token).Follows (Steps crypto) := by
  unfold verifyAndConsumeToken
  split
  · refine Follows.bind (issuerKey_follows generated) fun key => ?_
    refine Follows.ite trivial (Follows.ite trivial ?_)
    exact fun _ _ => ⟨rfl, trivial⟩
  · exact trivial

theorem signBlinded_follows (generated : Key) (epochId : String) (blinded : List Char)
    (powNonce : String) (powBits : ℕ) :
    (signBlinded crypto generated epochId blinded powNonce powBits).Follows (Steps crypto) := by
  refine Follows.bind (issuerKey_follows generated) fun key => ?_
  refine Follows.ite trivial ?_
  split
  · exact trivial
  · refine Follows.ite trivial ?_
    split
    · exact trivial
    · exact trivial

theorem handler_follows (r : Request Key) : (handler crypto r).Follows (Steps crypto) := by
  cases r with
  | params generated =>
    exact Follows.bind (Follows.bind (issuerKey_follows generated) fun _ => trivial)
      fun _ => trivial
  | issue generated epochId blinded powNonce powBits =>
    exact Follows.bind (signBlinded_follows generated epochId blinded powNonce powBits)
      fun _ => trivial
  | deposit generated token =>
    exact Follows.bind (verifyAndConsumeToken_follows generated token) fun _ => trivial
  | rotate =>
    exact Follows.bind (Follows.effect fun _ _ => ⟨rfl, rfl, le_rfl⟩) fun _ => trivial
  | tick seconds =>
    exact Follows.bind (Follows.effect fun _ _ => ⟨rfl, rfl, Nat.le_add_right _ _⟩)
      fun _ => trivial

/-! ## Marks -/

/-- Every token that was accepted is marked for `SPENT_TTL`, and none was accepted twice. -/
structure Inv (crypto : Crypto Key) (e : Ext Key) : Prop where
  marked : ∀ a ∈ e.accepted, Expiring.Keeps (fun _ => True) (a.time + spentTtl)
    (e.spent (crypto.mark a.token))
  past : ∀ a ∈ e.accepted, a.time ≤ e.now
  once : (e.accepted.map Acceptance.token).Nodup

/-- A token that was accepted before is presented before its mark lapses. -/
def Label.InTime (e : Ext Key) : Label Key → Prop
  | .spend token => ∀ a ∈ e.accepted, a.token = token → e.now < a.time + spentTtl
  | _ => True

theorem Inv.spend {token : Token Key} (hinv : Inv crypto e)
    (htime : (Label.spend token).InTime e) : Inv crypto (e.spend crypto token) := by
  unfold Ext.spend
  split
  case isFalse => exact hinv
  case isTrue hunspent =>
    have hnone : Expiring.read e.now (e.spent (crypto.mark token)) = none :=
      isNone_iff_eq_none.mp hunspent
    refine ⟨fun a ha => ?_, fun a ha => ?_, ?_⟩
    · rcases mem_cons.mp ha with rfl | ha
      · refine ⟨⟨(), some (e.now + spentTtl)⟩, update_self _ _ _, trivial, ?_⟩
        rintro y hy
        exact (some.inj hy).le
      · by_cases hmark : crypto.mark a.token = crypto.mark token
        · -- another token with the same mark: the new mark outlives the old one
          refine ⟨⟨(), some (e.now + spentTtl)⟩, ?_, trivial, ?_⟩
          · rw [hmark]
            exact update_self _ _ _
          · rintro y hy
            calc a.time + spentTtl ≤ e.now + spentTtl := Nat.add_le_add_right (hinv.past a ha) _
              _ = y := some.inj hy
        · dsimp only
          rw [update_of_ne hmark]
          exact hinv.marked a ha
    · rcases mem_cons.mp ha with rfl | ha
      · exact le_rfl
      · exact hinv.past a ha
    · refine nodup_cons.mpr ⟨fun hmem => ?_, hinv.once⟩
      -- a token that was accepted before is still marked
      obtain ⟨a, ha, rfl⟩ := mem_map.mp hmem
      obtain ⟨v, hread, -⟩ := (hinv.marked a ha).read (htime a ha rfl)
      exact some_ne_none v (hread.symm.trans hnone)

theorem Inv.quiet (hinv : Inv crypto e) (h : Quiet e e') : Inv crypto e' := by
  refine ⟨fun a ha => ?_, fun a ha => ?_, ?_⟩
  · rw [h.spent]
    exact hinv.marked a (h.accepted ▸ ha)
  · exact (hinv.past a (h.accepted ▸ ha)).trans h.now_le
  · rw [h.accepted]
    exact hinv.once

theorem Inv.steps (l : Label Key) (htime : l.InTime e) (hstep : Steps crypto l e e')
    (hinv : Inv crypto e) : Inv crypto e' := by
  cases l with
  | spend token =>
    have heq : e' = e.spend crypto token := hstep
    exact heq ▸ hinv.spend htime
  | getIssuer => exact hinv.quiet hstep
  | setIssuer => exact hinv.quiet hstep
  | rotate => exact hinv.quiet hstep
  | tick => exact hinv.quiet hstep

/-! ## Runs -/

/-- No token is presented again after its mark has lapsed. -/
def PresentsInTime (w : World Key) : Action (Request Key) → Prop
  | .step n => ∀ x ∈ w.upcoming n, x.2.InTime w.shared.ext
  | _ => True

/-- **A token is spent once.**  In every run of deposits, issues and rotations, however their
commands interleave and however much time passes, in which no token is presented again after its
mark has lapsed, no token is accepted twice under one key. -/
theorem token_accepted_once {issuer : Option Key} {now : Time}
    {spent : String × String → Option (Expiring.Entry Unit)} {w : World Key}
    (hrun : World.Run (handler crypto) PresentsInTime (.fresh () ⟨issuer, spent, now, []⟩) w) :
    (w.shared.ext.accepted.map Acceptance.token).Nodup := by
  have hinit : Inv crypto (⟨issuer, spent, now, []⟩ : Ext Key) :=
    ⟨nofun, nofun, nodup_nil⟩
  have hinv : Inv crypto w.shared.ext :=
    World.ext_inv_of_run (C := fun l e => l.InTime e) handler_follows
      (fun l _ _ htime hstep hinv => hinv.steps l htime hstep) (fun _ _ hok => hok) hinit hrun
  exact hinv.once

section Example

instance (e : Ext Unit) (l : Label Unit) : Decidable (l.InTime e) := by
  rcases l with _ | _ <;> unfold Label.InTime <;> infer_instance

instance (w : World Unit) (a : Action (Request Unit)) : Decidable (PresentsInTime w a) := by
  rcases a with _ | _ <;> unfold PresentsInTime <;> infer_instance

/-- One key, under which a signature is the message itself. -/
def plainCrypto : Crypto Unit where
  epochId _ := "epoch"
  verify _ prepared sig := prepared == sig
  blindSign _ bytes := some bytes
  verifyPow _ _ _ := true
  sha256 bytes := String.ofList (bytes.map Char.ofNat)

/-- The first deposit of an island, with a token of the message `0`. -/
def firstDeposit : Request Unit :=
  .deposit () ⟨some "epoch", some "AA==".toList, some "AA==".toList⟩

/-- A time at which nothing has been issued and nothing spent. -/
def nothingSpent : World Unit := .fresh () ⟨some (), fun _ => none, 0, []⟩

/-- Two deposits with one token at the same time, and a third one a day later. -/
theorem token_accepted_once_at_once :
    let w := nothingSpent.play (handler plainCrypto)
      ([.start firstDeposit, .start firstDeposit, .step 0, .step 1, .step 1, .step 0, .step 1,
        .step 0, .start (Request.tick (days 1))] ++ steps 2 2 ++ .start firstDeposit :: steps 3 3)
    w.answer? 0 = some (.accepted false) ∧ w.answer? 1 = some (.accepted true) ∧
      w.answer? 3 = some (.accepted false) ∧
      (w.shared.ext.accepted.map Acceptance.token).Nodup :=
  ⟨rfl, rfl, rfl, token_accepted_once (.of_play _ (by decide +kernel))⟩

/-- The same token, fourteen days later. -/
theorem token_accepted_again_after_mark :
    let w := nothingSpent.play (handler plainCrypto)
      (.start firstDeposit :: steps 0 3 ++ .start (Request.tick (days 14)) :: steps 1 2 ++
        .start firstDeposit :: steps 2 3)
    World.Run (handler plainCrypto) (fun _ _ => True) nothingSpent w ∧
      w.answer? 0 = some (.accepted true) ∧ w.answer? 2 = some (.accepted true) ∧
      ¬(w.shared.ext.accepted.map Acceptance.token).Nodup :=
  ⟨.of_play _ (by decide +kernel), rfl, rfl, by decide +kernel⟩

end Example

end RcqServer.DepositAuth
