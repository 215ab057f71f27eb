import RcqServer.Guests.Footprint
import RcqServer.Numbers.InOrder

/-!
# Keys without a proof

Whoever registers without proving the signing key, or is put in a room by somebody else, must not get
a key that an account already has.  Both doors look the key up among the stored texts: the registration
for the text that was sent, the room for the two usual spellings.  A text of the same key that is
neither is not found.
-/

namespace RcqServer

open Option

/-- The signing keys of the accounts, as they are stored. -/
abbrev KeyTable := Uin → Option KeyText

/-- There is a new account. -/
def Created (before after : KeyTable) : Prop := ∃ v, before v = none ∧ (after v).isSome

/-- A new account has the key of one that was there. -/
def Collides (before after : KeyTable) : Prop :=
  ∃ u v key, before v = none ∧ (after v).bind decodeKey32 = some key ∧
    (before u).bind decodeKey32 = some key

/-- One account was made, with the key `text`, after a look that `found` describes. -/
structure Mints (found : KeyText → Prop) (text : KeyText) (v : Uin) (before after : KeyTable) : Prop where
  new : before v = none
  key : after v = some text
  others : ∀ u, u ≠ v → after u = before u
  decodes : (decodeKey32 text).isSome
  unfound : ∀ u old, before u = some old → ¬found old

/-- A look keeps a new account from another one's key just when it finds every text of the key. -/
theorem not_collides_iff {found : KeyText → Prop} {text : KeyText} {before after : KeyTable}
    (h : after = before ∨ ∃ v, Mints found text v before after) (hnew : Created before after) :
    ¬Collides before after ↔
      ∀ u old, before u = some old → decodeKey32 old = decodeKey32 text → found old := by
  obtain ⟨v, hmints⟩ : ∃ v, Mints found text v before after := by
    refine h.resolve_left fun heq => ?_
    obtain ⟨v, hnone, hsome⟩ := hnew
    rw [heq, hnone] at hsome
    cases hsome
  obtain ⟨raw, hraw⟩ := isSome_iff_exists.mp hmints.decodes
  constructor
  · intro hnot u old hu hsame
    refine absurd ⟨u, v, raw, hmints.new, ?_, ?_⟩ hnot
    · rw [hmints.key, bind_some, hraw]
    · rw [hu, bind_some, hsame, hraw]
  · rintro hfound ⟨u, x, key, hx, hafter, hbefore⟩
    have hxv : x = v := by
      by_contra hne
      rw [hmints.others x hne, hx] at hafter
      cases hafter
    rw [hxv, hmints.key, bind_some] at hafter
    obtain ⟨old, hu, hold⟩ := bind_eq_some_iff.mp hbefore
    exact hmints.unfound u old hu (hfound u old hu (hold.trans hafter.symm))

open ReadCommitted Prog

/-! ## Registration -/

namespace Numbers

def Db.keys (db : Db) : KeyTable := fun u => (db.users.get u).map UserRow.signingKey

/-- Nothing has happened to the accounts, or one was made. -/
def Registered (key : KeyText) (before : KeyTable) (db : Db) : Prop :=
  db.keys = before ∨ ∃ v, Mints (· = key) key v before db.keys

variable {s : Shared Db Ext} {db : Db} {α β : Type}

/-- Not an account. -/
def NoUser (w : Write) : Prop := ∀ u row, w ≠ .user u row

/-- A part of the registration that leaves the accounts alone. -/
theorem wlp_noUser {key : KeyText} {before : KeyTable} {p : Handler α}
    (hp : p.Part NoUser fun _ => True) {f : α → Handler β} {ws : List Write}
    {Q : β → List Write → Shared Db Ext → Prop}
    (h : Both (fun d => d.users = db.users) ws s) (hbefore : db.keys = before)
    (hf : ∀ a ws s, Both (fun d => d.users = db.users) ws s →
      (f a).wlp (fun s => Registered key before s.db) Q ws s) :
    (p.bind f).wlp (fun s => Registered key before s.db) Q ws s := by
  have hW : ∀ (w : Write) (d : Db), NoUser w → d.users = db.users →
      (Store.apply w d).users = db.users := fun w d hw hd => (sets_users.other w hw d).trans hd
  refine wlp_seq (wlp_weaken (wlp_within hW hp.1 h) (fun s hs => ?_) fun _ _ _ => id) hf
  refine .inl (Eq.trans ?_ hbefore)
  unfold Db.keys
  rw [hs]

/-- The account of a new registration. -/
theorem insertUser_registered {key : KeyText} {uin : Uin} {row : Time → UserRow} {x : Ext → Ext}
    {ws : List Write} (h : Both (fun d => d.users = db.users) ws s)
    (hrow : ∀ t, (row t).signingKey = key) (hkey : (decodeKey32 key).isSome)
    (hunfound : ∀ u old, db.keys u = some old → old ≠ key) :
    ((insert (.take .users uin .insertUser) (·.users.get uin) (.user uin) row internalError).bind
      fun _ => .commit (.take .users uin .commit) x (.ret uin)).wlp
      (fun s => Registered key db.keys s.db) (fun _ _ s => Registered key db.keys s.db) ws s := by
  have hsame : s.db.keys = db.keys := by
    unfold Db.keys
    rw [h.1]
  cases hget : db.users.get uin with
  | some old => simpa [wlp, insert, Prog.bind, run, h.2, hget] using .inl hsame
  | none =>
    simp only [wlp, insert, Prog.bind, run, h.2, hget, isSome_none, Bool.false_eq_true,
      if_false, getD_none, Shared.commit_db]
    refine .inr ⟨uin, ?_, ?_, ?_, hkey, hunfound⟩
    · rw [Db.keys, hget]
      rfl
    · rw [Db.keys, Shared.view, applyAll_concat]
      change (((applyAll ws s.db).users.set uin _).get uin).map _ = _
      rw [Table.get_set_self, map_some, hrow]
    · intro u hu
      rw [Db.keys, Shared.view, applyAll_concat]
      change (((applyAll ws s.db).users.set uin _).get u).map _ = _
      rw [Table.get_set_ne _ hu, show (applyAll ws s.db).users = db.users from h.2]
      rfl

theorem register_registered (cfg : Config) (till : Till) (body : RegisterIn) {env : RegisterEnv}
    (hproof : env.proof = .absent) (s : Shared Db Ext) :
    Registered body.signingKey s.db.keys ((register cfg till body env).exec s).2.db := by
  have hstart : Both (fun d => d.users = s.db.users) ([] : List Write) s := .nil rfl
  refine exec_inv (P := fun s' => Registered body.signingKey s.db.keys s'.db) ?_
  unfold register
  refine wlp_noUser (checkKey_part _ _) hstart rfl fun _ ws s₁ h => ?_
  have hleft : Registered body.signingKey s.db.keys s₁.db := by
    refine .inl ?_
    unfold Db.keys
    rw [h.1]
  unfold checkKey
  split
  · rename_i hok
    have hkey := isSome_of_pubkey32 hok
    refine wlp_raiseIf_bind (fun _ => hleft) fun _ => wlp_raiseIf_bind (fun _ => hleft) fun _ => ?_
    split
    · exact hleft
    · rename_i policy _
      -- without a proof, the key is looked for
      have hrefuse : refuseTakenKey (env.proof == .valid) body.signingKey =
          (read .getKey fun db _ =>
            !(db.users.select fun _ u => u.signingKey == body.signingKey).isEmpty).bind fun taken =>
              raiseIf (taken = true) ⟨403, "key_proof_required"⟩ := by
        rw [hproof]
        rfl
      rw [bind_eq, hrefuse, Prog.bind_assoc]
      refine wlp_read_bind (wlp_raiseIf_bind (fun _ => hleft) fun htaken => ?_)
      have hunfound : ∀ u old, s.db.keys u = some old → old ≠ body.signingKey := by
        rintro u old hu rfl
        obtain ⟨row, hrow, hold⟩ := map_eq_some_iff.mp hu
        have hmem : (u, row) ∈ (s₁.view ws).users.select
            fun _ u => u.signingKey == body.signingKey := by
          refine Table.mem_select.mpr ⟨?_, beq_iff_eq.mpr hold⟩
          rw [show (s₁.view ws).users = s.db.users from h.2]
          exact hrow
        rw [Bool.not_eq_true, Bool.not_eq_false', List.isEmpty_iff] at htaken
        rw [htaken] at hmem
        cases hmem
      refine wlp_noUser (redeemEntry_part trivial trivial ?_ _ _) h rfl fun voucher ws s₂ h => ?_
      · exact fun _ _ _ _ hw => (by cases hw)
      refine wlp_noUser (passGate_part trivial trivial ?_ _ _ _) h rfl fun reserved ws s₂ h => ?_
      · exact fun _ _ _ _ hw => (by cases hw)
      rw [hproof]
      change ((chooseUin cfg body env reserved _).bind _).wlp _ _ _ _
      refine wlp_noUser (chooseUin_part (fun _ _ => trivial) _ _ _ _ _) h rfl fun uin ws s₃ h => ?_
      exact insertUser_registered h (fun _ => rfl) hkey hunfound
  · exact hleft

end Numbers

/-! ## A seat in a room -/

namespace Guests

def Db.keys (db : Db) : KeyTable := fun u => (db.users.get u).map User.signingKey

/-- The text is one of those that `row_for_key` looks for. -/
def LookedFor (key old : KeyText) : Prop := ∃ raw, decodeKey32 key = some raw ∧ old ∈ keySpellings raw

/-- Nothing has happened to the accounts, or a seat was made. -/
def Seated (key : KeyText) (before : KeyTable) (db : Db) : Prop :=
  db.keys = before ∨ ∃ v, Mints (LookedFor key) key v before db.keys

variable {s : State} {key : KeyText} {db : Db} {α β : Type}

/-- A part of the request that writes nothing. -/
theorem wlp_quiet {p : Handler α} (hp : p.Within (fun _ => False) fun _ _ => True)
    {f : α → Handler β} {Q : β → List Write → State → Prop} (h : s.db = db)
    (hf : ∀ a s, s.db = db → (f a).wlp (fun s => Seated key db.keys s.db) Q [] s) :
    (p.bind f).wlp (fun s => Seated key db.keys s.db) Q [] s := by
  refine wlp_seq (wlp_weaken (wlp_silent hp h) (fun s hs => .inl (by rw [hs])) fun _ _ _ => id) ?_
  rintro a ws s ⟨rfl, hs⟩
  exact hf a s hs

theorem quiet_true : Quiet fun _ _ => True := ⟨fun _ => trivial, fun _ _ => trivial⟩

theorem mint_seated {env : MintEnv} {identityKey : KeyText} {lock : CreateLock} (h : s.db = db)
    (hkey : (decodeKey32 key).isSome) (hunfound : ∀ u old, db.keys u = some old → ¬LookedFor key old) :
    (mint env identityKey key .added lock none).wlp (fun s => Seated key db.keys s.db)
      (fun _ _ s => Seated key db.keys s.db) [] s := by
  have hsame : ∀ s : State, s.db = db → Seated key db.keys s.db := fun s hs => .inl (by rw [hs])
  unfold mint
  refine wlp_quiet (quiet_true.allocateUin env) h fun u s h => ?_
  subst h
  cases hget : s.db.users.get u with
  | some old => simpa [wlp, insertGuest, Prog.bind, run, hget] using hsame s rfl
  | none =>
    have hmint : ∀ row : User, row.signingKey = key →
        Seated key s.db.keys (applyAll [Write.insert u row] s.db) := by
      intro row hrow
      refine .inr ⟨u, ?_, ?_, ?_, hkey, hunfound⟩
      · rw [Db.keys, hget]
        rfl
      · have hself : (applyAll [Write.insert u row] s.db).users.get u =
            some ((s.db.users.get u).getD row) := get_apply_self (.insert u row) s.db
        rw [Db.keys, hself, hget, getD_none, map_some, hrow]
      · intro v hv
        rw [Db.keys, get_applyAll_of_notMem fun hmem => hv (List.mem_singleton.mp hmem)]
        rfl
    cases hmark : env.markFails with
    | true => simpa [wlp, insertGuest, Prog.bind, run, hget, hmark, releaseKey] using hsame s rfl
    | false =>
      cases hcommit : env.commitFails with
      | true =>
        simpa [wlp, insertGuest, Prog.bind, run, hget, hmark, hcommit, releaseKey, markGuest,
          unmarkGuest, effect] using hsame s rfl
      | false =>
        simpa [wlp, insertGuest, Prog.bind, run, hget, hmark, hcommit, markGuest,
          Shared.view] using hmint _ rfl

theorem addGuest_seated (me : Uin) (body : GuestAddIn) (env : GuestAddEnv) (s : State) :
    Seated body.signingKey s.db.keys ((addGuest me body env).exec s).2.db := by
  have hsame : ∀ s' : State, s'.db = s.db → Seated body.signingKey s.db.keys s'.db :=
    fun s' hs => .inl (by rw [hs])
  have hexisting : ∀ row s', s'.db = s.db → (addExisting env row).wlp
      (fun s' => Seated body.signingKey s.db.keys s'.db)
      (fun _ _ s' => Seated body.signingKey s.db.keys s'.db) [] s' := by
    intro row s' h
    have hquiet : (addExisting env row).Within (fun _ => False) fun _ _ => True := by
      refine (Within.read (fun _ => trivial)).bind fun _ => (Quiet.refuseAs _).bind fun _ => ?_
      exact Within.bind (Within.onlyIf ⟨fun _ => trivial, trivial⟩) fun _ => trivial
    exact wlp_weaken (wlp_silent hquiet h) hsame fun _ _ s' hs => hsame s' hs.2
  refine exec_inv (P := fun s' => Seated body.signingKey s.db.keys s'.db) ?_
  unfold addGuest
  refine wlp_quiet (isGuest_within (fun _ => trivial) (fun _ _ => trivial)
    (fun _ _ _ _ => trivial) me env.cacheFails) rfl fun _ s₁ h => ?_
  refine wlp_raiseIf_bind (fun _ => hsame s₁ h) fun _ => ?_
  refine wlp_quiet (Quiet.checkKey _ _) h fun _ s₁ h => ?_
  rcases checkKey_cases body.signingKey "signing_key" with ⟨e, heq⟩ | ⟨raw, heq, hraw⟩
  · rw [heq]
    exact hsame s₁ h
  rw [heq]
  change wlp _ ((raiseIf _ _).bind _) _ _ _
  refine wlp_raiseIf_bind (fun _ => hsame s₁ h) fun _ => ?_
  refine wlp_quiet (Quiet.refuseAs _) h fun _ s₁ h => wlp_quiet (quiet_true.rowForKey raw) h ?_
  rintro (_ | row) s₁ h
  · refine wlp_quiet (quiet_true.rotatedAccount raw) h fun _ s₁ h => ?_
    refine wlp_raiseIf_bind (fun _ => hsame s₁ h) fun _ => ?_
    refine wlp_quiet (Quiet.refuseAs _) h fun _ s₁ h => ?_
    have hlock : (acquireCreateLock raw).Within (fun _ => False) fun _ _ => True :=
      fun _ _ => ⟨by simp, trivial, Within.ite trivial trivial⟩
    refine wlp_quiet hlock h fun lock s₁ h => ?_
    refine wlp_seq (Q := fun _ _ s' => Seated body.signingKey s.db.keys s'.db) (wlp_attempt
      (R := fun s' => Seated body.signingKey s.db.keys s'.db)
      (Q := fun _ _ s' => Seated body.signingKey s.db.keys s'.db) ?_ (fun _ _ _ => id) fun _ _ _ => id) ?_
    · -- the look under the lock
      refine wlp_read_bind ?_
      rw [Shared.view_nil, h]
      cases hrow : s.db.rowForKey raw with
      | some row => exact hexisting row s₁ h
      | none =>
        refine wlp_seq (mint_seated h (by rw [hraw]; rfl) fun u old hu hold => ?_) fun _ _ _ => id
        obtain ⟨row, hget, rfl⟩ := map_eq_some_iff.mp hu
        obtain ⟨raw', hraw', hmem⟩ := hold
        rw [hraw] at hraw'
        cases hraw'
        exact rowForKey_none hrow hget hmem
    · intro out ws s' hs'
      refine wlp_bind.mpr (wlp_effect.mpr ?_)
      cases out with
      | ok a => exact hs'
      | error e => exact hs'
  · exact hexisting row s₁ h

end Guests

/-! ## Both doors -/

/-- A registration without a proof on an open island. -/
def walkIn (key : KeyText) (draw : ℕ) : Numbers.Handler Uin :=
  Numbers.register Numbers.defaults Numbers.closedTill ⟨key, key, "", none⟩
    ⟨.absent, some .openIsland, false, false, fun _ => draw⟩

def emptyIsland : Shared Numbers.Db Numbers.Ext := ⟨Numbers.emptyDb, .initial 0, []⟩

end RcqServer
