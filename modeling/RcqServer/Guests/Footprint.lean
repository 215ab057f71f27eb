import RcqServer.Guests.Accounts
import RcqServer.ReadCommitted.Transaction

/-!
# What most steps of a guest's request do

Between the lookup of a key and the mint of a row, and where the row exists, a request reads, updates
that row, marks it, and keeps the guard of its challenge.
-/

namespace RcqServer.Guests

open ReadCommitted Prog

/-! ## Lookups -/

theorem checkKey_cases (text : KeyText) (field : String) : (∃ e, checkKey text field = .raise e) ∨
      ∃ raw, checkKey text field = .ret raw ∧ decodeKey32 text = some raw := by
  unfold checkKey
  split
  · exact .inl ⟨_, rfl⟩
  · exact .inl ⟨_, rfl⟩
  · exact .inr ⟨_, rfl, ‹_›⟩

/-- No row has one of the two texts. -/
theorem rowForKey_none {db : Db} {raw : KeyBytes} (hnone : db.rowForKey raw = none) {u : Uin}
    {row : User} (hrow : db.users.get u = some row) : row.signingKey ∉ keySpellings raw := by
  intro hmem
  have hselect : (u, row) ∈ db.users.select
      fun _ row => (keySpellings raw).contains row.signingKey :=
    Table.mem_select.mpr ⟨hrow, List.contains_iff_mem.mpr hmem⟩
  have hsorted := (List.mem_insertionSort claimedBefore).mpr hselect
  rw [Db.rowForKey, Option.map_eq_none_iff, List.head?_eq_none_iff] at hnone
  rw [hnone] at hsorted
  cases hsorted

/-! ## Writes and effects -/

section Mirror

variable {W : Write → Prop} {E : Ext → Ext → Prop} (hE : ∀ e, E e e)
  (hreplace : ∀ (e : Ext) rows, E e (e.replace rows))

include hE hreplace

theorem rebuild_within : rebuild.Within W E :=
  (Within.read hE).bind fun _ => Within.effect fun _ e => hreplace e _

theorem isGuest_within (hreport : ∀ (e : Ext) u answer guest, E e (e.report u answer guest))
    (uin : Uin) (cacheFails : Bool) : (isGuest uin cacheFails).Within W E := by
  unfold isGuest
  split
  · exact fun _ e => ⟨by simp, hreport e _ _ _, trivial⟩
  · refine Within.bind ((Within.read hE).bind fun _ => ?_) ?_
    · exact Within.onlyIf (rebuild_within hE hreplace)
    · exact fun _ _ e => ⟨by simp, hreport e _ _ _, trivial⟩

end Mirror

/-- Effects that contain those of the steps without writes. -/
structure Quiet (E : Ext → Ext → Prop) : Prop where
  refl : ∀ e, E e e
  challenges : ∀ (e : Ext) challenges, E e { e with challenges := challenges }

/-- Writes and effects that contain those of the common steps. -/
structure Calm (W : Write → Prop) (E : Ext → Ext → Prop) : Prop extends Quiet E where
  mark : ∀ (e : Ext) uin, E e (e.mark uin)
  update : ∀ uin change, W (.update uin change)

namespace Quiet

variable {W : Write → Prop} {E : Ext → Ext → Prop} (h : Quiet E)

include h

omit h in
theorem checkKey (text : KeyText) (field : String) : (checkKey text field).Within W E := by
  unfold Guests.checkKey
  split
  · exact trivial
  · exact trivial
  · exact trivial

omit h in
theorem refuseAs (refusal : Option HttpError) : (refuseAs refusal).Within W E := by
  cases refusal with
  | none => exact trivial
  | some e => exact trivial

theorem rowForKey (raw : KeyBytes) : (rowForKey raw).Within W E := Within.read h.refl

theorem rotatedAccount (raw : KeyBytes) : (rotatedAccount raw).Within W E := by
  refine (Within.read h.refl).bind ?_
  rintro (_ | uin)
  · exact trivial
  · exact (Within.read h.refl).bind fun _ => trivial

theorem claimChallenge (challenge : Challenge) : (claimChallenge challenge).Within W E := by
  intro v e
  refine ⟨by simp, ?_, Within.raiseIf⟩
  dsimp only
  split
  · exact h.challenges e _
  · exact h.refl e

theorem releaseKey (guard : Option Challenge) : (releaseKey guard).Within W E := by
  cases guard with
  | none => exact trivial
  | some challenge => exact Within.effect fun _ e => h.challenges e _

theorem allocateUin (env : MintEnv) : (allocateUin env).Within W E := by
  unfold Guests.allocateUin
  generalize 100 = tries
  induction tries with
  | zero => exact trivial
  | succ tries ih =>
    refine Within.ite ih <| (Within.read h.refl).bind fun _ => ?_
    exact Within.ite ih trivial

end Quiet

namespace Calm

variable {W : Write → Prop} {E : Ext → Ext → Prop} (h : Calm W E)

include h

theorem updateRow (l : Label) (uin : Uin) (change : Change) (p : User → Bool) :
    (Guests.update l uin change p).Within W E := by
  refine Within.write h.refl fun v _ o ho => ?_
  split at ho
  · obtain rfl := List.mem_singleton.mp ho
    exact h.update uin change
  · cases ho

theorem markGuest (uin : Uin) : (markGuest uin).Within W E :=
  fun _ e => ⟨by simp, h.mark e uin, trivial⟩

theorem commitIf (c : Prop) [Decidable c] : (onlyIf c (commitOnly .commit) : Handler Unit).Within W E :=
  Within.onlyIf ⟨h.refl, trivial⟩

theorem claimSeat (env : GuestEnv) (row : KeyRow) (identityKey : KeyText)
    (guard : Option Challenge) : (claimSeat env row identityKey guard).Within W E := by
  refine Within.ite (Within.ite ?_ ?_) trivial
  · exact (h.toQuiet.releaseKey guard).bind fun _ => trivial
  · exact (h.markGuest row.uin).bind fun _ => h.updateRow _ _ _ _

theorem repairKey (row : KeyRow) (identityKey : KeyText) (raw : KeyBytes) (claimed : Bool) :
    (repairKey row identityKey raw claimed).Within W E :=
  Within.ite (h.updateRow _ _ _ _) trivial

theorem guestExistingRow (env : GuestEnv) (row : KeyRow) (identityKey : KeyText) (raw : KeyBytes)
    (guard : Option Challenge) : (guestExistingRow env row identityKey raw guard).Within W E := by
  refine Within.raiseIf.bind fun _ => (h.updateRow _ _ _ _).bind fun _ => ?_
  refine (h.commitIf _).bind fun _ => Within.ite trivial ?_
  refine (h.claimSeat _ _ _ _).bind fun _ => (h.repairKey _ _ _ _).bind fun _ => ?_
  exact (h.commitIf _).bind fun _ => (Within.read h.refl).bind fun _ => trivial

theorem addExisting (env : GuestAddEnv) (row : KeyRow) : (addExisting env row).Within W E := by
  refine (Within.read h.refl).bind fun _ => (Quiet.refuseAs _).bind fun _ => ?_
  exact (h.commitIf _).bind fun _ => trivial

end Calm

end RcqServer.Guests
