import RcqServer.Sessions.Epochs
import RcqServer.Sessions.Nonces

/-!
# Rotations

What an account keeps through a rotation of its keys: that it is the only one with its key, that the
tokens of before a signed rotation are worth nothing after it, and that the proof of a rotation serves
for one rotation, and for another attempt if that one has failed.
-/

namespace RcqServer.Sessions

open ReadCommitted Outline World Option

/-- No other account is past its look for the key that the statement gives to an account. -/
def RotatesAlone (w : World) (k : ℕ) (l : Label) : Prop :=
  ∀ z ∈ l.commitsRotation, ∀ j < w.sessions.length, j ≠ k → ∀ y ∈ w.upcoming j,
    ∀ v ∈ y.2.rotatesOnto, v.1 ≠ z.1 → v.2 ≠ z.2

instance (w : World) (k : ℕ) (l : Label) : Decidable (RotatesAlone w k l) :=
  inferInstanceAs (Decidable (∀ z ∈ _, _))

/-- The nonce is claimed and given back in time, signing keys are stored in usual spellings when they
are looked for, and no rotation commits while one of another account onto the same key is past that
look. -/
def RotationsApart (w : World) : Action Request → Prop
  | .step k => ∀ x ∈ w.upcoming k, Nonces.inTime w.shared.ext x.2 ∧
      (x.2.looksForKey → w.shared.db.usualSpellings) ∧ RotatesAlone w k x.2
  | _ => True

instance : DecidableRel RotationsApart := by
  rintro w (_ | _) <;> unfold RotationsApart <;> infer_instance

theorem Collisions.allows_of_rotationsApart {w : World} {a : Action Request}
    (h : RotationsApart w a) : Collisions.outline.Allows w a := by
  cases a with
  | start r => exact trivial
  | kill k => exact trivial
  | step k =>
    intro r p ws hk
    refine ⟨fun l hl => (h _ (upcoming_of_running hk hl)).2.1, ?_⟩
    intro _ l hl j r' p' ws' hj hother z hz y hy v hv
    exact (h _ (upcoming_of_running hk hl)).2.2 z hz j
      (List.getElem?_eq_some_iff.mp hother).1 hj _ (upcoming_of_running hother hy) v hv

variable {cfg : Config} {verify : Verify} {db : Db} {now : Time} {w w' : World} {n : ℕ}

/-- A rotation that found nobody with its key has it alone, and makes no two accounts share one. -/
theorem no_new_collision
    (hrun : Run (handler cfg verify) RotationsApart (.fresh db (.initial now)) w)
    (hok : RotationsApart w (.step n)) (hnext : w.next (handler cfg verify) (.step n) = some w')
    {ro : Rotation} (hro : w'.shared.ext.rotations = ro :: w.shared.ext.rotations)
    (hcascade : ro.cascade = false) : w'.shared.db.KeyFree ro.uin ro.key ∧
      ∀ u v key, u ≠ v → w'.shared.db.keyOf u = some key → w'.shared.db.keyOf v = some key →
        w.shared.db.keyOf u = some key ∧ w.shared.db.keyOf v = some key := by
  have hsteps := step_of_run Collisions.coherent
    (fun r s _ _ => Collisions.handler_safe cfg verify r s) trivial
    (Run.mono (fun _ _ => Collisions.allows_of_rotationsApart) hrun)
    (Collisions.allows_of_rotationsApart hok) hnext
  rcases hsteps with hsame | ⟨r, l, ws, -, -, hstep⟩
  · rw [hsame] at hro
    exact absurd hro (List.cons_ne_self _ _).symm
  have hguar : Collisions.Guar l w.shared w'.shared := hstep.guar
  obtain ⟨hcommits, hfree⟩ := hguar.rotation ro hro hcascade
  -- an account whose key is new is the one that was rotated, and nobody else has that key
  have hold : ∀ x y key, x ≠ y → w'.shared.db.keyOf x = some key →
      w'.shared.db.keyOf y = some key → w.shared.db.keyOf x = some key := by
    intro x y key hxy hx hy
    rcases hguar.keys x with hkept | ⟨key', hrotated, hnew⟩
    · exact hkept ▸ hx
    · obtain ⟨rfl, rfl⟩ := Prod.mk.inj (some.inj (hcommits.symm.trans hrotated))
      have hkey : key = ro.key := some.inj (hx.symm.trans hnew)
      exact absurd (hkey ▸ hy) (hfree y hxy.symm)
  exact ⟨hfree, fun u v key huv hu hv => ⟨hold u v key huv hu hv, hold v u key huv.symm hv hu⟩⟩

/-- The text of 32 equal bytes. -/
def plainKey (byte : ℕ) : KeyText := Base64.encode (List.replicate 32 byte)

def plainAccount (signingKey : KeyText) : Account := ⟨plainKey 1, signingKey, false, none⟩

/-- A change of the signing key from `old`, signed at 1000. -/
def signedChange (old new : KeyText) : ReissueIn :=
  ⟨plainKey 1, new, some 1, some "rcq".toList, some old, some 1000,
    some (List.replicate 22 'A'), some (List.replicate 86 'A')⟩

/-- A change of the signing key without a proof. -/
def unsignedChange (new : KeyText) : ReissueIn :=
  ⟨plainKey 1, new, none, none, none, none, none, none⟩

/-- The first attempt fails to commit, the second one uses the same proof; then the old token is
tried, and another account tries to take the key. -/
def retriedRotation : List (Action Request) :=
  .start (Request.login 1 none) :: steps 0 10 ++ .start (Request.login 2 none) :: steps 1 10 ++
    .start (Request.reissue (issueToken 1000 1 0 none) (signedChange (plainKey 1) (plainKey 3))
      ⟨true, ["rcq".toList], true⟩) :: steps 2 30 ++
    .start (Request.reissue (issueToken 1000 1 0 none) (signedChange (plainKey 1) (plainKey 3))
      ⟨true, ["rcq".toList], false⟩) :: steps 3 30 ++
    .start (Request.check (issueToken 1000 1 0 none)) :: steps 4 10 ++
    .start (Request.reissue (issueToken 1000 2 0 none) (unsignedChange (plainKey 3))
      ⟨false, ["rcq".toList], false⟩) :: steps 5 30

/-- Two accounts with keys of their own. -/
def twoAccounts (second : KeyText) : Db :=
  let users := Table.set ∅ 1 (some (plainAccount (plainKey 1)))
  ⟨∅, users.set 2 (some (plainAccount second)), ∅, ∅⟩

def acceptAll : Verify := fun _ _ _ => true

/-- Another text of 32 zero bytes: the last two bits of the last letter are not read. -/
def oddKey : KeyText := List.replicate 42 'A' ++ ['B', '=']

/-- An account rotates onto a key that is stored in another spelling. -/
def rotationOntoOdd : List (Action Request) :=
  .start (Request.login 1 none) :: steps 0 10 ++
    .start (Request.reissue (issueToken 1000 1 0 none) (unsignedChange (plainKey 0))
      ⟨false, ["rcq".toList], false⟩) :: steps 1 30

end RcqServer.Sessions
