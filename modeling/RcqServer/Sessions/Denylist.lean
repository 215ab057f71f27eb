import RcqServer.Sessions.Steps

/-!
# A revoked device stays out

The denylist of an account is one set with one expiry: 90 days after the last revocation it is gone
as a whole.  The token of a linked device has expired by then.  The token of an install never
expires, and is good again.
-/

namespace RcqServer.Sessions

open ReadCommitted List Expiring

/-- The token names the device of the revocation and was minted before it. -/
def Revocation.Hits (rev : Revocation) (token : Token) : Prop :=
  rev.uin = token.uin ∧ token.device = some rev.device ∧ token.iat ≤ rev.at_

instance (rev : Revocation) (token : Token) : Decidable (rev.Hits token) :=
  inferInstanceAs (Decidable (_ ∧ _))

namespace Denylist

/-- Every revocation is on its denylist for as long as a token that it hits can live. -/
structure Inv (e : Ext) : Prop where
  issued : ∀ i ∈ e.issued, i.token.linked → i.token.exp = i.token.iat + deviceTtl
  past : ∀ rev ∈ e.revocations, rev.at_ ≤ e.now
  kept : ∀ rev ∈ e.revocations, e.now < rev.at_ + deviceTtl →
    Keeps (rev.device ∈ ·) (rev.at_ + deviceTtl) (e.revoked.get rev.uin)
  passes : ∀ pass ∈ e.devicePasses, pass.token.linked → ∀ rev ∈ pass.revocations,
    ¬rev.Hits pass.token

/-- What the steps of a revocation and of a check have to find. -/
def inTime (e : Ext) : Label → Bool
  | .denylist token => !token.linked || decide (e.now < token.exp)
  | .expireDenylist u d => decide (d ∈ e.denylist u)
  | _ => true

variable {cfg : Config} {r : Request} {l : Label} {e e' : Ext}

theorem Inv.congr (h : Inv e) (hissued : e'.issued = e.issued)
    (hrevocations : e'.revocations = e.revocations) (hrevoked : e'.revoked = e.revoked)
    (hpasses : e'.devicePasses = e.devicePasses) (hnow : e.now ≤ e'.now) : Inv e' where
  issued := hissued ▸ h.issued
  past rev hrev := (h.past rev (hrevocations ▸ hrev)).trans hnow
  kept rev hrev hlt := by
    rw [hrevoked]
    exact h.kept rev (hrevocations ▸ hrev) (hnow.trans_lt hlt)
  passes := hpasses ▸ h.passes

theorem Inv.mint (h : Inv e) {i : Issue}
    (hi : i.token.linked → i.token.exp = i.token.iat + deviceTtl) :
    Inv { e with issued := i :: e.issued } :=
  { h with issued := forall_mem_cons.mpr ⟨hi, h.issued⟩ }

/-- A command on a denylist that keeps what is to be kept. -/
theorem kept_onRevoked (h : Inv e) {u : Uin}
    {f : Option (Entry (List DeviceId)) → Option (Entry (List DeviceId))}
    (hf : ∀ d t, e.now < t → t ≤ e.now + deviceTtl →
      Keeps (d ∈ ·) t (e.revoked.get u) → Keeps (d ∈ ·) t (f (e.revoked.get u)))
    {rev : Revocation} (hrev : rev ∈ e.revocations) (hlt : e.now < rev.at_ + deviceTtl) :
    Keeps (rev.device ∈ ·) (rev.at_ + deviceTtl) ((e.onRevoked u f).revoked.get rev.uin) := by
  have hkept := h.kept rev hrev hlt
  change Keeps _ _ ((e.revoked.set u (f (e.revoked.get u))).get rev.uin)
  rw [Table.get_set]
  split
  · rename_i hu
    rw [hu] at hkept
    exact hf _ _ hlt (Nat.add_le_add_right (h.past rev hrev) _) hkept
  · exact hkept

theorem Inv.deny (h : Inv e) (u : Uin) (d : DeviceId) : Inv (e.deny u d) :=
  { h with
    kept rev hrev hlt := by
      refine kept_onRevoked h (fun d' t ht _ hkeeps => ?_) hrev hlt
      exact hkeeps.alter ht fun ids hmem => ⟨_, rfl, mem_insert_of_mem hmem⟩ }

theorem Inv.expireDenylist (h : Inv e) {u : Uin} {d : DeviceId} (hmem : d ∈ e.denylist u) :
    Inv { e.onRevoked u (Expiring.expire e.now deviceTtl) with
      revoking := e.revoking.filter (· ≠ (u, d))
      revocations := ⟨u, d, e.now⟩ :: e.revocations } where
  issued := h.issued
  past := forall_mem_cons.mpr ⟨le_rfl, h.past⟩
  kept rev hrev hlt := by
    rcases mem_cons.mp hrev with rfl | hold
    · -- the device is on the set whose expiry is set now
      change Keeps _ _ ((e.revoked.set u _).get u)
      rw [Table.get_set_self]
      unfold Ext.denylist at hmem
      cases hread : Expiring.read e.now (e.revoked.get u) with
      | none => simp [hread] at hmem
      | some ids =>
        rw [hread, Option.getD_some] at hmem
        exact keeps_expire hread hmem deviceTtl
    · exact kept_onRevoked h (fun d' t ht hle hkeeps => hkeeps.expire ht hle) hold hlt
  passes := h.passes

/-- A linked device's token that passes was not hit by any revocation: the set still names what a
revocation has put there, as long as the token has not expired. -/
theorem Inv.devicePass (h : Inv e) {token : Token} {d : DeviceId} (hsigned : e.Signed token)
    (hdevice : token.device = some d) (hpass : e.passesDevice token d)
    (hexp : token.linked → e.now < token.exp) (listed : Bool) :
    Inv { e with devicePasses := ⟨token, e.revocations, listed⟩ :: e.devicePasses } where
  issued := h.issued
  past := h.past
  kept := h.kept
  passes := by
    intro pass hmem hlinked rev hrev hhits
    rcases mem_cons.mp hmem with rfl | hold
    · obtain ⟨huin, hdev, hiat⟩ := hhits
      obtain ⟨i, hi, rfl⟩ := hsigned
      have hlt : e.now < rev.at_ + deviceTtl :=
        calc e.now < i.token.exp := hexp hlinked
          _ = i.token.iat + deviceTtl := h.issued i hi hlinked
          _ ≤ rev.at_ + deviceTtl := Nat.add_le_add_right hiat _
      obtain ⟨ids, hread, hin⟩ := (h.kept rev hrev hlt).read hlt
      obtain rfl : rev.device = d := Option.some.inj (hdev.symm.trans hdevice)
      have huin : rev.uin = i.token.uin := huin
      rw [huin] at hread
      simp [Ext.passesDevice, Ext.denylist, hread, hin] at hpass
    · exact h.passes pass hold hlinked rev hrev hhits

theorem Inv.step (h : Inv e) (hdoes : Does cfg r l e e') (hcond : inTime e l) : Inv e' := by
  cases hdoes with
  | quiet hq => exact h.congr hq.issued hq.revocations hq.revoked hq.devicePasses hq.now.ge
  | tick _ seconds => exact h.congr rfl rfl rfl rfl (Nat.le_add_right _ _)
  | mint hphone _ => exact h.mint fun hlinked => by simp [hphone] at hlinked
  | mintLinked epoch _ => exact h.mint fun _ => rfl
  | deny _ u d => exact h.deny u d
  | expireDenylist _ u d => exact h.expireDenylist (of_decide_eq_true hcond)
  | @devicePass _ token d hsigned hdevice hpass =>
    have hexp : token.linked → e.now < token.exp := by
      intro hlinked
      simpa [inTime, hlinked] using hcond
    exact h.devicePass hsigned hdevice hpass hexp _
  | _ => exact h.congr rfl rfl rfl rfl le_rfl

end Denylist

/-- A linked device's token has not expired when the denylist is asked about it, and the denylist of
an account does not run out between the `SADD` and the `EXPIRE` of a revocation. -/
def DenylistInTime (w : World) : Action Request → Prop
  | .step n => ∀ x ∈ w.upcoming n, Denylist.inTime w.shared.ext x.2
  | _ => True

instance : DecidableRel DenylistInTime := by
  rintro w (_ | _) <;> unfold DenylistInTime <;> infer_instance

/-- An island without accounts of note; a day of grace before a young session may revoke. -/
def emptyDb : Db := ⟨∅, ∅, ∅, ∅⟩

def defaults : Config := ⟨days 1⟩

/-- No signature is good. -/
def noProofs : Verify := fun _ _ _ => false

/-- The phone, device 9, links a browser, which is used and revoked; the browser tries again.  -/
def revokedBrowser : List (Action Request) :=
  let phone := issueToken 1000 1 0 (some 9)
  let browser := issueDeviceToken 1000 1 0 0
  .start (Request.login 1 (some 9)) :: steps 0 10 ++ .start (Request.linkDevice phone "Web") :: steps 1 20 ++
    .start (Request.check browser) :: steps 2 10 ++ .start (Request.tick 60) :: steps 3 3 ++
    .start (Request.revokeDevice phone 0) :: steps 4 20 ++ .start (Request.check browser) :: steps 5 10

/-- Two installs of an account, devices 5 and 9; one revokes the other, which comes back 90 days
later with the token that it had. -/
def patientInstall : List (Action Request) :=
  .start (Request.login 1 (some 5)) :: steps 0 10 ++ .start (Request.login 1 (some 9)) :: steps 1 10 ++
    .start (Request.revokeDevice (issueToken 1000 1 0 (some 9)) 5) :: steps 2 20 ++
    .start (Request.tick (days 90)) :: steps 3 3 ++
    .start (Request.check (issueToken 1000 1 0 (some 5))) :: steps 4 10

end RcqServer.Sessions
