import RcqServer.Guests.Footprint
import RcqServer.ReadCommitted.Custody

/-!
# One row per key

A mint takes the create lock of its key, looks for a row, and inserts one if there is none.  The lock
lasts for half a minute, and the look is for the two usual spellings of the key.  So no key gets two
guest rows as long as keys are sent in usual spellings and every mint commits while it has its lock.
-/

namespace RcqServer.Guests

open ReadCommitted Prog Custody Option Function Expiring

/-- No key belongs to two guests. -/
def Db.OneGuestPerKey (db : Db) : Prop :=
  ∀ u v row row' key, db.users.get u = some row → db.users.get v = some row' →
    row.guestStatus.isSome → row'.guestStatus.isSome → decodeKey32 row.signingKey = some key →
    decodeKey32 row'.signingKey = some key → u = v

/-- The signing keys of guests are stored in usual spellings. -/
def Db.UsualGuests (db : Db) : Prop :=
  ∀ u row, db.users.get u = some row → row.guestStatus.isSome → usualSpelling row.signingKey

/-- The signing key of the request is in a usual spelling. -/
def Request.usual : Request → Bool
  | .guestJoin body _ => usualSpelling body.signingKey
  | .addGuest _ body _ => usualSpelling body.signingKey
  | _ => true

/-- A mint commits while it has its lock. -/
def Label.locked (e : Ext) : Label → Bool
  | .commitMint _ lockedUntil => e.now < lockedUntil
  | _ => true

namespace OneRow

variable {r : Request} {l : Label} {ws : List Write} {s s' : State} {n : ℕ} {α : Type}

/-! ## What a mint holds -/

/-- A create lock, and whether its holder has found no row for the key. -/
structure Held where
  lock : CreateLock
  looked : Bool

/-- No guest has the key. -/
def Vacant (db : Db) (key : KeyBytes) : Prop :=
  ∀ u row, db.users.get u = some row → row.guestStatus.isSome → decodeKey32 row.signingKey ≠ some key

structure Inv (s : State) (own : ℕ → Option Held) : Prop where
  unique : s.db.OneGuestPerKey
  usual : s.db.UsualGuests
  tokens : ∀ n h, own n = some h → h.lock.token < s.ext.nextToken
  distinct : ∀ n m h h', n ≠ m → own n = some h → own m = some h' → h.lock.token ≠ h'.lock.token
  /-- Until it expires, the lock is there. -/
  live : ∀ n h, own n = some h → s.ext.now < h.lock.expires →
    s.ext.createLocks.get h.lock.key = some ⟨h.lock.token, some h.lock.expires⟩
  vacant : ∀ n h, own n = some h → h.looked → s.ext.now < h.lock.expires → Vacant s.db h.lock.key

def custody : Custody Db Ext Label Request Held where
  Inv := Inv
  Of _ _ := True
  Later _ _ := True
  Cond r l s := r.usual ∧ l.locked s.ext

theorem coherent : custody.Coherent where
  later_refl _ := trivial
  later_trans _ _ _ _ _ := trivial

variable {own : ℕ → Option Held} {lock : CreateLock} {db : Db} {p : Handler α} {o : Option Held}
  {β : Type} {looked : Bool}

/-- Two holders of one lock do not both have it in time. -/
theorem Inv.apart (hinv : Inv s own) {m : ℕ} {h h' : Held} (hnm : n ≠ m)
    (hn : own n = some h) (hm : own m = some h') (hkey : h'.lock.key = h.lock.key)
    (hnow : s.ext.now < h.lock.expires) : ¬s.ext.now < h'.lock.expires := by
  intro hnow'
  have hlive := hinv.live n h hn hnow
  have hlive' := hinv.live m h' hm hnow'
  rw [hkey, hlive] at hlive'
  exact hinv.distinct n m h h' hnm hn hm (Entry.mk.inj (some.inj hlive')).1

/-! ## Steps that mint nobody -/

/-- Not a new row. -/
def Inserts (w : Write) : Prop := ∃ u row, w = .insert u row

/-- The locks stay as they are. -/
structure Still (e e' : Ext) : Prop where
  locks : e'.createLocks = e.createLocks
  tokens : e'.nextToken = e.nextToken
  later : e.now ≤ e'.now

theorem still_refl (e : Ext) : Still e e := ⟨rfl, rfl, le_rfl⟩

theorem calm : Calm (fun w => ¬Inserts w) Still where
  refl := still_refl
  challenges _ _ := ⟨rfl, rfl, le_rfl⟩
  mark _ _ := ⟨rfl, rfl, le_rfl⟩
  update := by
    rintro u change ⟨v, row, h⟩
    cases h

/-- Every row was there before, with the same key, and is not a guest's unless it was. -/
def Below (db db' : Db) : Prop :=
  ∀ v row', db'.users.get v = some row' → ∃ row, db.users.get v = some row ∧ row.Softer row'

theorem below_refl (db : Db) : Below db db := fun _ row' h => ⟨row', h, rfl, id⟩

theorem below_of_noInsert (hws : ∀ w ∈ ws, ¬Inserts w) (db : Db) : Below db (applyAll ws db) := by
  refine applyAll_inv (ω := Write) (P := Below db) (below_refl db) fun w hw d hd v row' hrow' => ?_
  rw [get_apply] at hrow'
  split at hrow'
  · cases w with
    | insert u row => exact absurd ⟨u, row, rfl⟩ (hws _ hw)
    | delete u => cases hrow'
    | update u change =>
      obtain ⟨mid, hmid, rfl⟩ := map_eq_some_iff.mp hrow'
      obtain ⟨row, hrow, hsofter⟩ := hd v mid hmid
      exact ⟨row, hrow, (change.softer mid).key.trans hsofter.key,
        hsofter.guest ∘ (change.softer mid).guest⟩
  · exact hd v row' hrow'

theorem Vacant.below {db' : Db} {key : KeyBytes} (h : Vacant db key) (hbelow : Below db db') :
    Vacant db' key := by
  intro v row' hrow' hguest
  obtain ⟨row, hrow, hsofter⟩ := hbelow v row' hrow'
  rw [hsofter.key]
  exact h v row hrow (hsofter.guest hguest)

theorem Inv.below (hinv : Inv s own) (hdb : Below s.db s'.db)
    (he : Still s.ext s'.ext) : Inv s' own where
  unique := by
    intro u v row row' key hu hv hguest hguest' hkey hkey'
    obtain ⟨row₁, hu, hsofter⟩ := hdb u row hu
    obtain ⟨row₂, hv, hsofter'⟩ := hdb v row' hv
    rw [hsofter.key] at hkey
    rw [hsofter'.key] at hkey'
    exact hinv.unique u v row₁ row₂ key hu hv (hsofter.guest hguest) (hsofter'.guest hguest') hkey
      hkey'
  usual := by
    intro u row hu hguest
    obtain ⟨row₁, hu, hsofter⟩ := hdb u row hu
    rw [hsofter.key]
    exact hinv.usual u row₁ hu (hsofter.guest hguest)
  tokens n h hn := he.tokens.symm ▸ hinv.tokens n h hn
  distinct := hinv.distinct
  live n h hn hnow := he.locks.symm ▸ hinv.live n h hn (Nat.lt_of_le_of_lt he.later hnow)
  vacant n h hn hlooked hnow :=
    (hinv.vacant n h hn hlooked (Nat.lt_of_le_of_lt he.later hnow)).below hdb

theorem framed {W : Write → Prop} (hW : ∀ w, W w → ¬Inserts w) : custody.Framed W Still where
  stmt _ _ _ hinv he := ⟨Inv.below hinv (below_refl _) he, trivial⟩
  commit _ s _ _ hws hinv he :=
    ⟨Inv.below hinv (below_of_noInsert (fun w hw => hW w (hws w hw)) s.db) he, trivial⟩

/-- A part of a handler that mints nobody and does not fail with a lock in its hands. -/
theorem calm_wp (hp : p.Within (fun w => ¬Inserts w) Still) (hfail : o = none ∨ p.Succeeds) :
    custody.wp r p (fun _ o' _ _ => o' = o) o [] s :=
  wp_mono (wp_within coherent (framed fun _ => id) hp hfail (fun _ _ => trivial) (by simp))
    fun _ _ _ _ h => h.1

/-- A part of a handler that writes nothing. -/
theorem quiet_wp (hp : p.Within (fun _ => False) Still) (hfail : o = none ∨ p.Succeeds) :
    custody.wp r p (fun _ o' ws _ => o' = o ∧ ws = []) o [] s :=
  wp_mono (wp_within coherent (framed fun _ => False.elim) hp hfail (fun _ _ => trivial) (by simp))
    fun _ _ _ _ h => ⟨h.1, List.eq_nil_iff_forall_not_mem.mpr h.2.1⟩

theorem quiet_bind (hp : p.Within (fun _ => False) Still)
    {f : α → Handler β} {Q : β → Option Held → List Write → State → Prop}
    (hf : ∀ a s, custody.wp r (f a) Q none [] s) : custody.wp r (p.bind f) Q none [] s := by
  refine wp_seq (quiet_wp hp (.inl rfl)) ?_
  rintro a o ws s ⟨rfl, rfl⟩
  exact hf a s

theorem report_still (e : Ext) (u : Uin) (answer guest : Bool) : Still e (e.report u answer guest) := by
  cases answer with
  | true => exact still_refl e
  | false => exact ⟨rfl, rfl, le_rfl⟩

theorem replace_still (e : Ext) (rows : List Uin) : Still e (e.replace rows) :=
  ⟨rfl, rfl, le_rfl⟩

theorem background_within : background.Within (fun w => ¬Inserts w) Still := by
  refine Within.bind (fun _ e => ⟨by simp, ?_, trivial⟩) fun _ => Within.onlyIf ?_
  · dsimp only
    split
    · exact ⟨rfl, rfl, le_rfl⟩
    · exact still_refl e
  · exact (rebuild_within still_refl replace_still).bind fun _ => Within.effect fun _ _ => ⟨rfl, rfl, le_rfl⟩

theorem unmark_within (uin : Uin) : (unmarkGuest uin).Within (fun w => ¬Inserts w) Still :=
  Within.effect fun _ _ => ⟨rfl, rfl, le_rfl⟩

theorem guestSettle_within (me : Uin) (gate : Option HttpError) :
    (guestSettle me gate).Within (fun w => ¬Inserts w) Still := by
  refine (Within.read still_refl).bind ?_
  rintro (_ | row)
  · exact trivial
  · refine Within.raiseIf.bind fun _ => (Quiet.refuseAs gate).bind fun _ => ?_
    refine (calm.updateRow _ _ _ _).bind fun _ => Within.raiseIf.bind fun _ => ?_
    exact Within.bind ⟨fun _ => ⟨rfl, rfl, le_rfl⟩, trivial⟩ fun _ => unmark_within me

theorem purgeAccount_within (uin : Uin) :
    (purgeAccount uin).Within (fun w => ¬Inserts w) Still := by
  refine (Within.read still_refl).bind ?_
  rintro (_ | row)
  · exact trivial
  · refine Within.bind (Within.write still_refl fun _ _ o ho => ?_) fun _ => ?_
    · obtain rfl := List.mem_singleton.mp ho
      rintro ⟨u, row, h⟩
      cases h
    · refine Within.bind ⟨fun _ => ⟨rfl, rfl, le_rfl⟩, trivial⟩ fun _ => ?_
      exact Within.onlyIf (unmark_within uin)

/-! ## The lock -/

theorem update_cases {m : ℕ} {h : Held}
    (hm : Function.update own n o m = some h) : (m = n ∧ o = some h) ∨ m ≠ n ∧ own m = some h := by
  by_cases hmn : m = n
  · subst hmn
    rw [update_self] at hm
    exact .inl ⟨rfl, hm⟩
  · rw [update_of_ne hmn] at hm
    exact .inr ⟨hmn, hm⟩

theorem Inv.acquire (hinv : Inv s own) {key : KeyBytes}
    (hfree : (Expiring.read s.ext.now (s.ext.createLocks.get key)).isNone) :
    Inv (s.tell { s.ext with
        createLocks := s.ext.createLocks.set key
          (some ⟨s.ext.nextToken, some (s.ext.now + createLockTtl)⟩)
        nextToken := s.ext.nextToken + 1 })
      (Function.update own n
        (some ⟨⟨key, s.ext.nextToken, s.ext.now + createLockTtl⟩, false⟩)) := by
  -- whoever else has held the lock has it no more
  have hothers : ∀ m h, own m = some h → h.lock.key = key → ¬s.ext.now < h.lock.expires := by
    intro m h hm hkey hnow
    have hlive := hinv.live m h hm hnow
    have halive : Entry.alive s.ext.now
        (⟨h.lock.token, some h.lock.expires⟩ : Entry ℕ) := decide_eq_true hnow
    rw [← hkey, hlive, Expiring.read, find_of_alive halive] at hfree
    cases hfree
  refine ⟨hinv.unique, hinv.usual, ?_, ?_, ?_, ?_⟩
  · intro m h hm
    rcases update_cases hm with ⟨-, ho⟩ | ⟨-, hm⟩
    · cases ho
      exact Nat.lt_succ_self _
    · exact Nat.lt_succ_of_lt (hinv.tokens m h hm)
  · intro m k h h' hmk hm hk
    rcases update_cases hm with ⟨rfl, ho⟩ | ⟨-, hm⟩
    · cases ho
      rcases update_cases hk with ⟨rfl, -⟩ | ⟨-, hk⟩
      · exact absurd rfl hmk
      · exact (Nat.ne_of_lt (hinv.tokens k h' hk)).symm
    · rcases update_cases hk with ⟨-, ho⟩ | ⟨-, hk⟩
      · cases ho
        exact Nat.ne_of_lt (hinv.tokens m h hm)
      · exact hinv.distinct m k h h' hmk hm hk
  · intro m h hm hnow
    rcases update_cases hm with ⟨-, ho⟩ | ⟨-, hm⟩
    · cases ho
      exact Table.get_set_self _ _ _
    · have hne : h.lock.key ≠ key := fun heq => hothers m h hm heq hnow
      exact (Table.get_set_ne _ hne _).trans (hinv.live m h hm hnow)
  · intro m h hm hlooked hnow
    rcases update_cases hm with ⟨-, ho⟩ | ⟨-, hm⟩
    · cases ho
      cases hlooked
    · exact hinv.vacant m h hm hlooked hnow

/-- As far as locks are concerned, everybody holds what he held before, or nothing. -/
theorem Inv.of_locks (hinv : Inv s own) {own' : ℕ → Option Held}
    (hbefore : ∀ m h, own' m = some h → ∃ h₀, own m = some h₀ ∧ h₀.lock = h.lock)
    (hvacant : ∀ m h, own' m = some h → h.looked → s.ext.now < h.lock.expires →
      Vacant s.db h.lock.key) : Inv s own' := by
  refine ⟨hinv.unique, hinv.usual, ?_, ?_, ?_, hvacant⟩
  · intro m h hm
    obtain ⟨h₀, hm, heq⟩ := hbefore m h hm
    exact heq ▸ hinv.tokens m h₀ hm
  · intro m k h h' hmk hm hk
    obtain ⟨h₀, hm, heq⟩ := hbefore m h hm
    obtain ⟨h₁, hk, heq'⟩ := hbefore k h' hk
    exact heq ▸ heq' ▸ hinv.distinct m k h₀ h₁ hmk hm hk
  · intro m h hm
    obtain ⟨h₀, hm, heq⟩ := hbefore m h hm
    exact heq ▸ hinv.live m h₀ hm

/-- A holder who finds out more about the rows, or forgets it, holds the same lock. -/
theorem Inv.relook (hinv : Inv s own) {looked' : Bool} (hn : own n = some ⟨lock, looked⟩)
    (hv : looked' → s.ext.now < lock.expires → Vacant s.db lock.key) :
    Inv s (Function.update own n (some ⟨lock, looked'⟩)) := by
  refine hinv.of_locks (fun m h hm => ?_) fun m h hm hlooked hnow => ?_
  · rcases update_cases hm with ⟨rfl, ho⟩ | ⟨-, hm⟩
    · cases ho
      exact ⟨_, hn, rfl⟩
    · exact ⟨h, hm, rfl⟩
  · rcases update_cases hm with ⟨-, ho⟩ | ⟨-, hm⟩
    · cases ho
      exact hv hlooked hnow
    · exact hinv.vacant m h hm hlooked hnow

/-- Only one's own lock is given back. -/
theorem Inv.release (hinv : Inv s own) (hn : own n = some ⟨lock, looked⟩) :
    Inv (s.tell (if Expiring.read s.ext.now (s.ext.createLocks.get lock.key) = some lock.token then
        { s.ext with createLocks := s.ext.createLocks.set lock.key none } else s.ext))
      (Function.update own n none) := by
  have hbefore : ∀ m h, Function.update own n none m = some h → m ≠ n ∧ own m = some h := by
    intro m h hm
    rcases update_cases hm with ⟨-, ho⟩ | hm
    · cases ho
    · exact hm
  have hinv₀ : Inv s (Function.update own n none) :=
    hinv.of_locks (fun m h hm => ⟨h, (hbefore m h hm).2, rfl⟩)
      fun m h hm => hinv.vacant m h (hbefore m h hm).2
  split
  · rename_i hread
    refine ⟨hinv₀.unique, hinv₀.usual, hinv₀.tokens, hinv₀.distinct, ?_, hinv₀.vacant⟩
    intro m h hm hnow
    have hlive := hinv₀.live m h hm hnow
    have hne : h.lock.key ≠ lock.key := by
      intro heq
      have halive : Entry.alive s.ext.now
          (⟨h.lock.token, some h.lock.expires⟩ : Entry ℕ) := decide_eq_true hnow
      rw [← heq, hlive, Expiring.read, find_of_alive halive] at hread
      obtain ⟨hmn, hm⟩ := hbefore m h hm
      exact hinv.distinct m n h _ hmn hm hn (some.inj hread)
    exact (Table.get_set_ne _ hne _).trans hlive
  · exact hinv₀

/-- The commit of a row for a key that nobody has. -/
theorem Inv.mint (hinv : Inv s own) {u : Uin} {row : User}
    (hn : own n = some ⟨lock, true⟩) (hnow : s.ext.now < lock.expires)
    (hkey : decodeKey32 row.signingKey = some lock.key) (husual : usualSpelling row.signingKey) :
    Inv (s.commit [Write.insert u row] s.ext) (Function.update own n (some ⟨lock, false⟩)) := by
  have hvacant : Vacant s.db lock.key := hinv.vacant n _ hn rfl hnow
  have hrows : ∀ v row', (s.view [Write.insert u row]).users.get v = some row' →
      s.db.users.get v = some row' ∨ v = u ∧ row' = row := by
    intro v row' hrow'
    have hget := get_apply (.insert u row) s.db v
    rw [show (Store.apply (Write.insert u row) s.db).users.get v = some row' from hrow'] at hget
    split at hget
    · rename_i hvu
      cases hv : s.db.users.get v with
      | none =>
        rw [hv] at hget
        exact .inr ⟨hvu, some.inj hget⟩
      | some row₀ =>
        rw [hv] at hget
        exact .inl hget.symm
    · exact .inl hget.symm
  have hrelook : Inv s (Function.update own n (some ⟨lock, false⟩)) :=
    hinv.relook hn fun h => (by cases h)
  refine ⟨?_, ?_, hrelook.tokens, hrelook.distinct, hrelook.live, ?_⟩
  · intro x y row₁ row₂ key hx hy hguest₁ hguest₂ hkey₁ hkey₂
    rcases hrows x row₁ hx with hold₁ | ⟨hxu, hnew₁⟩
    · rcases hrows y row₂ hy with hold₂ | ⟨-, hnew₂⟩
      · exact hinv.unique x y row₁ row₂ key hold₁ hold₂ hguest₁ hguest₂ hkey₁ hkey₂
      · rw [hnew₂] at hkey₂
        exact absurd (hkey₁.trans (hkey₂.symm.trans hkey)) (hvacant x row₁ hold₁ hguest₁)
    · rcases hrows y row₂ hy with hold₂ | ⟨hyu, -⟩
      · rw [hnew₁] at hkey₁
        exact absurd (hkey₂.trans (hkey₁.symm.trans hkey)) (hvacant y row₂ hold₂ hguest₂)
      · exact hxu.trans hyu.symm
  · intro x row₁ hx hguest
    rcases hrows x row₁ hx with hx | ⟨-, rfl⟩
    · exact hinv.usual x row₁ hx hguest
    · exact husual
  · intro m h hm hlooked hnow' x row₁ hx hguest hdecode
    rcases update_cases hm with ⟨-, ho⟩ | ⟨hmn, hm⟩
    · cases ho
      cases hlooked
    · rcases hrows x row₁ hx with hx | ⟨-, rfl⟩
      · exact hinv.vacant m h hm hlooked hnow' x row₁ hx hguest hdecode
      · -- two holders of the lock, both in time
        have heq : h.lock.key = lock.key := some.inj (hdecode.symm.trans hkey)
        exact hinv.apart hmn.symm hn hm heq hnow hnow'

/-! ## Mints -/

theorem vacant_of_rowForKey {raw : KeyBytes} (husual : db.UsualGuests)
    (hnone : db.rowForKey raw = none) : Vacant db raw := by
  intro u row hrow hguest hdecode
  exact rowForKey_none hnone hrow (mem_keySpellings (husual u row hrow hguest) hdecode)

/-- The lock is still in hand. -/
def Holds (lock : CreateLock) (o : Option Held) : Prop := ∃ looked, o = some ⟨lock, looked⟩

/-- A failure under the lock, after a rollback. -/
theorem failed_wp {p : Handler Unit} {e : HttpError} (hp : p.Within (fun w => ¬Inserts w) Still) :
    custody.wp r (p.bind fun _ => (raise e : Handler β)).attempt (fun _ o _ _ => Holds lock o)
      (some ⟨lock, looked⟩) [] s :=
  wp_mono (calm_wp (Within.attempt (hp.bind fun _ => within_raise e)) (.inr (attempt_succeeds _)))
    fun _ _ _ _ h => ⟨looked, h⟩

theorem mint_wp {env : MintEnv} {identityKey signingKey : KeyText} {status : Status} {guard : Option Challenge} (hkey : decodeKey32 signingKey = some lock.key)
    (hr : r.usual → usualSpelling signingKey) :
    custody.wp r (mint env identityKey signingKey status lock guard).attempt
      (fun _ o _ _ => Holds lock o) (some ⟨lock, true⟩) [] s := by
  have hquiet : Quiet Still := calm.toQuiet
  rw [mint, bind_eq, attempt_bind]
  refine wp_seq (quiet_wp (hquiet.allocateUin env).attempt (.inr (attempt_succeeds _))) ?_
  rintro (e | u) o ws s ⟨rfl, rfl⟩
  · exact ⟨true, rfl⟩
  intro s' own n _ hinv ho _
  refine ⟨some ⟨lock, true⟩, ⟨keep hinv ho, trivial, fun _ _ => trivial⟩, ?_⟩
  dsimp only
  split
  · exact fun _ _ => ⟨true, rfl⟩
  change custody.wp r (if env.markFails then _ else _ : Handler Uin).attempt _ _ _ _
  split
  · exact fun s' _ => failed_wp (hquiet.releaseKey guard)
  intro s' own n _ hinv ho _
  refine ⟨some ⟨lock, true⟩, ⟨keep ?_ ho, trivial, fun _ _ => trivial⟩, ?_⟩
  · exact Inv.below hinv (below_refl _) ⟨rfl, rfl, le_rfl⟩
  change custody.wp r (if env.commitFails then _ else _ : Handler Uin).attempt _ _ _ _
  split
  · intro s' _
    refine failed_wp (p := (unmarkGuest u).bind fun _ => releaseKey guard) ?_
    exact (unmark_within u).bind fun _ => hquiet.releaseKey guard
  intro s' own n _ hinv ho hcond
  have hnow : s'.ext.now < lock.expires := of_decide_eq_true hcond.2
  exact ⟨some ⟨lock, false⟩, ⟨Inv.mint hinv ho hnow hkey (hr hcond.1), trivial,
    fun _ _ => trivial⟩, false, rfl⟩

/-- A look for the key under its lock: a row is dealt with, or the key is vacant. -/
theorem look_wp {existing : KeyRow → Handler GuestOut} {new : Handler Uin}
    (hexisting : ∀ row, (existing row).Within (fun w => ¬Inserts w) Still)
    (hnew : ∀ s, custody.wp r new.attempt (fun _ o _ _ => Holds lock o) (some ⟨lock, true⟩) [] s) :
    custody.wp r ((rowForKey lock.key).bind fun row => match row with
      | some row => existing row
      | none => new.bind fun uin => .ret ⟨uin, true, true⟩).attempt
      (fun _ o _ _ => Holds lock o) (some ⟨lock, false⟩) [] s := by
  intro s' own n _ hinv ho _
  have hinv' : Inv s' own := hinv
  change ∃ o', _ ∧ custody.wp r (match s'.db.rowForKey lock.key with
      | some row => existing row
      | none => new.bind fun uin => .ret ⟨uin, true, true⟩ : Handler GuestOut).attempt _ _ _ _
  cases hrow : s'.db.rowForKey lock.key with
  | some row =>
    refine ⟨some ⟨lock, false⟩, ⟨keep hinv ho, trivial, fun _ _ => trivial⟩, ?_⟩
    exact wp_mono (calm_wp (hexisting row).attempt (.inr (attempt_succeeds _)))
      fun _ _ _ _ h => ⟨false, h⟩
  | none =>
    refine ⟨some ⟨lock, true⟩, ⟨?_, trivial, fun _ _ => trivial⟩, ?_⟩
    · exact hinv'.relook ho fun _ _ => vacant_of_rowForKey hinv'.usual hrow
    · change custody.wp r (new.bind fun uin =>
        (.ret ⟨uin, true, true⟩ : Handler GuestOut)).attempt _ _ _ _
      rw [attempt_bind]
      refine wp_seq (hnew _) ?_
      rintro (e | uin) o ws s ho
      · exact ho
      · exact ho

theorem locked_wp {raw : KeyBytes} {body : CreateLock → Handler GuestOut}
    (hbody : ∀ lock s, lock.key = raw →
      custody.wp r (body lock).attempt (fun _ o _ _ => Holds lock o) (some ⟨lock, false⟩) [] s) :
    custody.wp r ((acquireCreateLock raw).bind fun lock => (body lock).attempt.bind fun out =>
      (releaseCreateLock lock).bind fun _ => ofExcept out) (fun _ o _ _ => o = none) none [] s := by
  refine wp_seq (Q := fun lock o ws _ => lock.key = raw ∧ o = some ⟨lock, false⟩ ∧ ws = []) ?_ ?_
  · intro s' own n _ hinv ho _
    dsimp only
    split
    · exact ⟨_, ⟨Inv.acquire hinv ‹_›, trivial, fun _ _ => trivial⟩, rfl, rfl, rfl⟩
    · exact ⟨none, ⟨keep hinv ho, trivial, fun _ _ => trivial⟩, rfl⟩
  · rintro lock o ws s ⟨hraw, rfl, rfl⟩
    refine wp_seq (hbody lock s hraw) ?_
    rintro out o ws s ⟨looked, rfl⟩ s' own n _ hinv ho _
    refine ⟨none, ⟨Inv.release hinv ho, trivial, fun _ h => (by cases h)⟩, ?_⟩
    cases out with
    | ok a => rfl
    | error e => rfl

theorem checkKey_wp {text : KeyText} {field : String} {f : KeyBytes → Handler β}
    {Q : β → Option Held → List Write → State → Prop}
    (hf : ∀ raw, decodeKey32 text = some raw → custody.wp r (f raw) Q none [] s) :
    custody.wp r ((checkKey text field).bind f) Q none [] s := by
  rcases checkKey_cases text field with ⟨e, heq⟩ | ⟨raw, heq, hraw⟩
  · rw [heq]
    exact rfl
  · rw [heq]
    exact hf raw hraw

theorem guestJoin_wp {body : GuestIn} {env : GuestEnv}
    (hr : r.usual → usualSpelling body.signingKey) :
    custody.wp r (guestJoin body env) (fun _ o _ _ => o = none) none [] s := by
  have hquiet : Quiet Still := calm.toQuiet
  unfold guestJoin
  refine wp_raiseIf_bind rfl fun _ => checkKey_wp fun rawIdentity _ => checkKey_wp fun raw hraw => ?_
  refine wp_raiseIf_bind rfl fun _ => wp_raiseIf_bind rfl fun _ => wp_raiseIf_bind rfl fun _ => ?_
  refine wp_raiseIf_bind rfl fun _ => quiet_bind (hquiet.claimChallenge _) fun _ s => ?_
  refine quiet_bind (hquiet.rowForKey raw) ?_
  rintro (_ | row) s
  · refine quiet_bind (hquiet.rotatedAccount raw) fun _ s => wp_raiseIf_bind rfl fun _ => ?_
    refine quiet_bind (Quiet.refuseAs _) fun _ s => locked_wp fun lock s hlock => ?_
    subst hlock
    exact look_wp (fun row => calm.guestExistingRow env row _ rawIdentity _)
      fun s => mint_wp hraw hr
  · exact calm_wp (calm.guestExistingRow env row _ rawIdentity _) (.inl rfl)

theorem addGuest_wp {me : Uin} {body : GuestAddIn} {env : GuestAddEnv}
    (hr : r.usual → usualSpelling body.signingKey) :
    custody.wp r (addGuest me body env) (fun _ o _ _ => o = none) none [] s := by
  have hquiet : Quiet Still := calm.toQuiet
  unfold addGuest
  refine quiet_bind (isGuest_within still_refl replace_still report_still me env.cacheFails) fun _ s => wp_raiseIf_bind rfl fun _ => ?_
  refine checkKey_wp fun _ _ => checkKey_wp fun raw hraw => wp_raiseIf_bind rfl fun _ => ?_
  refine quiet_bind (Quiet.refuseAs _) fun _ s => quiet_bind (hquiet.rowForKey raw) ?_
  rintro (_ | row) s
  · refine quiet_bind (hquiet.rotatedAccount raw) fun _ s => wp_raiseIf_bind rfl fun _ => ?_
    refine quiet_bind (Quiet.refuseAs _) fun _ s => locked_wp fun lock s hlock => ?_
    subst hlock
    exact look_wp (calm.addExisting env) fun s => mint_wp hraw hr
  · exact calm_wp (calm.addExisting env row) (.inl rfl)

theorem handler_wp (r : Request) (s : State) :
    custody.wp r (handler r) (fun _ o _ _ => o = none) none [] s := by
  have hmap : ∀ {α : Type} {p : Handler α} (f : α → Answer),
      custody.wp r p (fun _ o _ _ => o = none) none [] s →
      custody.wp r (p.bind fun a => .ret (f a)) (fun _ o _ _ => o = none) none [] s :=
    fun _ h => wp_seq h fun _ _ _ _ => id
  cases r with
  | guestJoin body env => exact hmap _ (guestJoin_wp id)
  | addGuest me body env => exact hmap _ (addGuest_wp id)
  | guestSettle me gate => exact hmap _ (calm_wp (guestSettle_within me gate) (.inl rfl))
  | purgeAccount uin => exact hmap _ (calm_wp (purgeAccount_within uin) (.inl rfl))
  | isGuest uin cacheFails =>
    exact hmap _ (calm_wp (isGuest_within still_refl replace_still report_still uin cacheFails)
      (.inl rfl))
  | background => exact hmap _ (calm_wp background_within (.inl rfl))
  | tick seconds =>
    refine hmap (fun _ => .done) (calm_wp (Within.effect fun _ _ => ?_) (.inl rfl))
    exact ⟨rfl, rfl, Nat.le_add_right _ _⟩

theorem inv_initial (hunique : db.OneGuestPerKey) (husual : db.UsualGuests) (now : Time) :
    Inv ⟨db, .initial now, []⟩ fun _ => none where
  unique := hunique
  usual := husual
  tokens _ _ h := (by cases h)
  distinct _ _ _ _ _ h := (by cases h)
  live _ _ h := (by cases h)
  vacant _ _ h := (by cases h)

end OneRow

/-! ## One row per key -/

/-- Keys are sent in usual spellings, and a mint commits while it has its lock. -/
def MintsInOrder (w : World) : Action Request → Prop
  | .step n => ∀ x ∈ w.upcoming n, x.1.usual ∧ x.2.locked w.shared.ext
  | _ => True

instance : DecidableRel MintsInOrder := by
  rintro w (_ | _) <;> unfold MintsInOrder <;> infer_instance

/-- **One guest per key.**  In every run in which keys are sent in usual spellings and mints commit
while they have their locks, no two guests ever have signing keys of the same bytes, if no two have
them at first. -/
theorem one_guest_per_key {db : Db} (hunique : db.OneGuestPerKey) (husual : db.UsualGuests)
    {now : Time} {w : World} (hrun : World.Run handler MintsInOrder (.fresh db (.initial now)) w) :
    w.shared.db.OneGuestPerKey := by
  obtain ⟨own, hinv, -⟩ := held_of_run OneRow.coherent OneRow.handler_wp
    (fun _ _ hok x hx => hok x hx) (OneRow.inv_initial hunique husual now) hrun
  have hinv : OneRow.Inv w.shared own := hinv
  exact hinv.unique

/-- Somebody proves a key, and gets the number `uin` if he is new. -/
def provenJoin (key : KeyText) (challenge : Challenge) (uin : Uin) : Request :=
  .guestJoin ⟨1, key, key, challenge⟩
    { draw := fun _ => uin, spoken := fun _ => false, markFails := false, commitFails := false,
      signatureDecodes := true, challengeValid := true, hostKnown := true, signatureValid := true,
      deviceRevoked := false, refusal := none }

/-- Two mints of one key, in both usual spellings, the second one while the first has the lock; then
another one. -/
def mintsAtOnce : List (Action Request) :=
  .start (provenJoin (List.replicate 43 'A' ++ ['=']) "a" 7) :: steps 0 5 ++
    .start (provenJoin (List.replicate 43 'A') "b" 8) :: steps 1 9 ++ steps 0 9 ++
    .start (provenJoin (List.replicate 43 'A') "c" 9) :: steps 2 20

theorem one_guest_per_key_at_once :
    let w := (World.fresh ⟨∅, ∅⟩ (.initial 1000) : World).play handler mintsAtOnce
    w.answer? 0 = some (.guest ⟨7, true, true⟩) ∧ w.answer? 1 = none ∧
      w.answer? 2 = some (.guest ⟨7, true, false⟩) ∧ w.shared.db.guest 7 ∧
      w.shared.db.OneGuestPerKey := by
  intro w
  have hrun : World.Run handler MintsInOrder (.fresh ⟨∅, ∅⟩ (.initial 1000)) w :=
    .of_play _ (by decide +kernel)
  exact ⟨by decide +kernel, by decide +kernel, by decide +kernel, by decide +kernel,
    one_guest_per_key (fun _ _ _ _ _ h => by cases h) (fun _ _ h => by cases h) hrun⟩

/-- The key of zeros in a spelling that is not looked for, and then in the usual one. -/
def spelledTwice : List (Action Request) :=
  .start (provenJoin (List.replicate 42 'A' ++ ['B', '=']) "a" 7) :: steps 0 20 ++
    .start (provenJoin (List.replicate 43 'A' ++ ['=']) "b" 8) :: steps 1 20

/-- Both are minted, one after the other and each under its lock, and have the same key. -/
theorem odd_spelling_mints_twice :
    let w := (World.fresh ⟨∅, ∅⟩ (.initial 1000) : World).play handler spelledTwice
    World.Run handler (fun _ _ => True) (.fresh ⟨∅, ∅⟩ (.initial 1000)) w ∧
      w.answer? 0 = some (.guest ⟨7, true, true⟩) ∧ w.answer? 1 = some (.guest ⟨8, true, true⟩) ∧
      w.shared.db.guest 7 ∧ w.shared.db.guest 8 ∧
      ((w.shared.db.users.get 7).bind fun row => decodeKey32 row.signingKey) =
        some (List.replicate 32 0) ∧
      ((w.shared.db.users.get 8).bind fun row => decodeKey32 row.signingKey) =
        some (List.replicate 32 0) :=
  ⟨.of_play _ (by decide +kernel), by decide +kernel⟩

end RcqServer.Guests
