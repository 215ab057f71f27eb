import RcqServer.Numbers.InOrder

/-!
# One number, two doors

A registration writes its number into `users`; a free claim, a redeemed voucher and an operator's
grant write theirs into `owned_uins`.  Each door first asks about both tables, and the primary key
of the table that it writes excludes a second request at the same door.  Between the doors nothing
does: a number is handed out once as long as no request commits it into one table while another
has already found that table free of it (`Apart`).
-/

namespace RcqServer.Numbers

open ReadCommitted Prog Outline List Option Shared

/-- How often a number has been handed out while it was free. -/
def Ext.handouts (e : Ext) (n : Uin) : ℕ := e.handed.countP (·.uin == n)

theorem handouts_hand (e : Ext) (m n : Uin) (door : Door) :
    (e.hand m door).handouts n = e.handouts n + if m = n then 1 else 0 := by
  simp [Ext.handouts, Ext.hand, countP_cons]

theorem handouts_grantEntry (e : Ext) (voucher : Option Nonce) (n : Uin) :
    (e.grantEntry voucher).handouts n = e.handouts n := by
  cases voucher with
  | none => rfl
  | some nonce => rfl

/-- The request writes the number into the table of the door. -/
@[simp] def Label.takes (n : Uin) (door : Door) : Label → Bool
  | .take door' m _ => door' == door && m == n
  | _ => false

/-- The request is at the door and has found the number missing in the table of the other. -/
@[simp] def Label.past (n : Uin) : Door → Label → Bool
  | .users, .check .users m part => m == n && (part == .hold || part == .invite)
  | .deeds, .check .deeds m part => m == n && part != .user
  | door, .take door' m _ => door' == door && m == n
  | _, _ => false

/-- A commit at `l` while another request is about to run `l'`. -/
def Apart (n : Uin) (l l' : Label) : Prop :=
  (l.takes n .users → ¬l'.past n .deeds) ∧ (l.takes n .deeds → ¬l'.past n .users)

instance (n : Uin) (l l' : Label) : Decidable (Apart n l l') := by
  unfold Apart
  infer_instance

/-- The requests that take a number, of which `n` is the one in question.  An account that gives up
`n` for another number is not among them. -/
def Takes (n : Uin) : Request → Prop
  | .register _ _ => True
  | .claim _ body _ => body.switch = false
  | .redeem me body _ _ => body.switch = true → me ≠ n
  | .grantUin _ => True
  | .tick _ => True
  | _ => False

namespace Handouts

variable {n m : Uin} {r : Request} {l : Label} {ws : List Write} {s s' : State}

/-! ## The outline -/

/-- Nobody answers as the number, or it has been given to somebody. -/
def Gate (n : Uin) (db : Db) : Prop :=
  db.users.get n = none ∨ (db.ownedUins.get n).isSome

structure Inv (n : Uin) (s : State) : Prop where
  once : s.ext.handouts n ≤ 1
  held : s.ext.handouts n = 1 → s.db.Held n

structure Rely (n : Uin) (l : Option Label) (ws : List Write) (s s' : State) : Prop where
  lockedUser : RowKey.user n ∈ lockedRows Db ws → s'.db.users.get n = s.db.users.get n
  lockedDeed : RowKey.deed n ∈ lockedRows Db ws → s'.db.ownedUins.get n = s.db.ownedUins.get n
  user : (s.db.users.get n).isSome → (s'.db.users.get n).isSome
  deed : (s.db.ownedUins.get n).isSome → (s'.db.ownedUins.get n).isSome
  noDeed : (∃ x ∈ l, x.past n .users) → s.db.ownedUins.get n = none → s'.db.ownedUins.get n = none
  gate : (∃ x ∈ l, x.past n .deeds) → Gate n s.db → Gate n s'.db

/-- What a commit at `l` does to the number. -/
structure Change (n : Uin) (l : Label) (ws : List Write) (s s' : State) : Prop where
  hist : s'.hist ≠ s.hist
  unlockedUser : RowKey.user n ∉ lockedRows Db ws → s'.db.users.get n = s.db.users.get n
  unlockedDeed : RowKey.deed n ∉ lockedRows Db ws → s'.db.ownedUins.get n = s.db.ownedUins.get n
  user : (s.db.users.get n).isSome → (s'.db.users.get n).isSome
  deed : (s.db.ownedUins.get n).isSome → (s'.db.ownedUins.get n).isSome
  /-- A new deed comes from the door of the deeds, which leaves one. -/
  noDeed : ¬l.takes n .deeds → s.db.ownedUins.get n = none → s'.db.ownedUins.get n = none
  taken : l.takes n .deeds → (s'.db.ownedUins.get n).isSome
  /-- A new account comes from one of the doors. -/
  noUser : ¬l.takes n .users → ¬l.takes n .deeds → s.db.users.get n = none →
    s'.db.users.get n = none

def outline (n : Uin) : Outline Db Ext Write Label Request where
  Inv := Inv n
  Rely _ := Rely n
  Guar _ l ws s s' := s'.db = s.db ∨ Change n l ws s s'
  Start r _ := Takes n r
  Cond _ _ _ := True
  Apart l _ l' _ := ∀ x ∈ l', Apart n l x

private theorem Rely.of_eq {l : Option Label} (hdb : s'.db = s.db) : Rely n l ws s s' where
  lockedUser _ := by rw [hdb]
  lockedDeed _ := by rw [hdb]
  user h := by rwa [hdb]
  deed h := by rwa [hdb]
  noDeed _ h := by rwa [hdb]
  gate _ h := by rwa [hdb]

private theorem Rely.of_change {l' : Option Label} {ws' : List Write} (h : Change n l ws s s')
    (hlocks : ∀ k ∈ lockedRows Db ws', k ∉ lockedRows Db ws) (hapart : ∀ x ∈ l', Apart n l x) :
    Rely n l' ws' s s' where
  lockedUser hlock := h.unlockedUser (hlocks _ hlock)
  lockedDeed hlock := h.unlockedDeed (hlocks _ hlock)
  user := h.user
  deed := h.deed
  noDeed := by
    rintro ⟨x, hx, hpast⟩ hnone
    exact h.noDeed (fun htakes => (hapart x hx).2 htakes hpast) hnone
  gate := by
    rintro ⟨x, hx, hpast⟩ hgate
    by_cases htakes : l.takes n .deeds = true
    · exact .inr (h.taken htakes)
    · exact hgate.imp (h.noUser (fun hu => (hapart x hx).1 hu hpast) htakes) h.deed

theorem coherent (n : Uin) : (outline n).Coherent where
  rely_refl _ _ _ _ := Rely.of_eq rfl
  rely_trans _ _ _ _ _ _ h h' :=
    ⟨fun hl => (h'.lockedUser hl).trans (h.lockedUser hl),
      fun hl => (h'.lockedDeed hl).trans (h.lockedDeed hl), h'.user ∘ h.user, h'.deed ∘ h.deed,
      fun hp => h'.noDeed hp ∘ h.noDeed hp, fun hp => h'.gate hp ∘ h.gate hp⟩
  guar_refl _ _ _ _ := .inl rfl
  rely_of_guar _ _ _ _ _ _ s s' _ hstep hlocks hapart := by
    rcases hstep.guar with hsame | hchange
    · exact Rely.of_eq hsame
    · exact Rely.of_change hchange hlocks (hapart.resolve_left hchange.hist)

/-! ## Assertions -/

/-- The write is not about the number. -/
def Elsewhere (n : Uin) (o : Write) : Prop :=
  (∀ row, o ≠ .user n row) ∧ ∀ row, o ≠ .deed n row

/-- The write does not take the number away. -/
def Keeps (n : Uin) (o : Write) : Prop := o ≠ .user n none ∧ o ≠ .deed n none

def Clear (n : Uin) (ws : List Write) : Prop := ∀ o ∈ ws, Elsewhere n o

/-- The pending writes change rows of the number that are there already. -/
structure Aside (n : Uin) (ws : List Write) (s : State) : Prop where
  user : ∀ row, Write.user n row ∈ ws → row.isSome ∧ (s.db.users.get n).isSome
  deed : ∀ row, Write.deed n row ∈ ws → row.isSome ∧ (s.db.ownedUins.get n).isSome

/-- The request is about to take `m` through the door of the users. -/
structure AtUsers (n m : Uin) (ws : List Write) (s : State) : Prop where
  clear : Clear n ws
  noDeed : m = n → s.db.ownedUins.get n = none

/-- The request is about to take `m` through the door of the deeds. -/
structure AtDeeds (n m : Uin) (ws : List Write) (s : State) : Prop where
  clear : Clear n ws
  gate : m = n → Gate n s.db

/-- The request has written the deed of a number that is still free. -/
structure Fresh (n : Uin) (ws : List Write) (s : State) : Prop where
  keeps : ∀ o ∈ ws, Keeps n o
  deed : ∃ row, Write.deed n row ∈ ws
  noDeed : s.db.ownedUins.get n = none
  noUser : s.db.users.get n = none

/-- The request moves a number that somebody owns. -/
structure Old (n : Uin) (ws : List Write) (s : State) : Prop where
  keeps : ∀ o ∈ ws, Keeps n o
  deed : (s.db.ownedUins.get n).isSome

/-- The request takes `m`, with `B` true of the writes if that is the number in question. -/
structure Taking (n m : Uin) (B : List Write → State → Prop) (ws : List Write) (s : State) :
    Prop where
  other : m ≠ n → Aside n ws s
  self : m = n → B ws s

theorem Clear.append (h : Clear n ws) {new : List Write} (hnew : ∀ o ∈ new, Elsewhere n o) :
    Clear n (ws ++ new) :=
  forall_mem_append.mpr ⟨h, hnew⟩

theorem Clear.aside (h : Clear n ws) : Aside n ws s where
  user row hrow := absurd rfl ((h _ hrow).1 row)
  deed row hrow := absurd rfl ((h _ hrow).2 row)

theorem Clear.users (h : Clear n ws) (s : State) : (s.view ws).users.get n = s.db.users.get n :=
  sets_users.get_applyAll_of_notMem (fun row hrow => (h _ hrow).1 row rfl) s.db

theorem Clear.ownedUins (h : Clear n ws) (s : State) :
    (s.view ws).ownedUins.get n = s.db.ownedUins.get n :=
  sets_ownedUins.get_applyAll_of_notMem (fun row hrow => (h _ hrow).2 row rfl) s.db

theorem Aside.users (h : Aside n ws s) :
    ((s.view ws).users.get n).isSome = (s.db.users.get n).isSome := by
  rcases sets_users.get_applyAll ws s.db n with hsame | hmem
  · rw [view, hsame]
  · exact (h.user _ hmem).1.trans (h.user _ hmem).2.symm

theorem Aside.ownedUins (h : Aside n ws s) :
    ((s.view ws).ownedUins.get n).isSome = (s.db.ownedUins.get n).isSome := by
  rcases sets_ownedUins.get_applyAll ws s.db n with hsame | hmem
  · rw [view, hsame]
  · exact (h.deed _ hmem).1.trans (h.deed _ hmem).2.symm

theorem clear_carried : (outline n).Carried r (fun _ => True) (Elsewhere n)
    (fun ws _ => Clear n ws) where
  stable _ _ _ _ _ h _ _ := h
  write _ _ _ h _ hnew := h.append hnew

theorem aside_carried : (outline n).Carried r (fun _ => True) (Elsewhere n) (Aside n) where
  stable _ _ _ _ _ h hrely _ :=
    ⟨fun row hrow => ⟨(h.user row hrow).1, hrely.user (h.user row hrow).2⟩,
      fun row hrow => ⟨(h.deed row hrow).1, hrely.deed (h.deed row hrow).2⟩⟩
  write ws s new h _ hnew := by
    refine ⟨fun row hrow => ?_, fun row hrow => ?_⟩
    · rcases mem_append.mp hrow with hrow | hrow
      · exact h.user row hrow
      · exact absurd rfl ((hnew _ hrow).1 row)
    · rcases mem_append.mp hrow with hrow | hrow
      · exact h.deed row hrow
      · exact absurd rfl ((hnew _ hrow).2 row)

theorem atUsers_carried : (outline n).Carried r (fun l => m = n → l.past n .users) (Elsewhere n)
    (AtUsers n m) where
  stable l _ _ _ hl h hrely _ :=
    ⟨h.clear, fun hm => hrely.noDeed ⟨l, rfl, hl hm⟩ (h.noDeed hm)⟩
  write _ _ _ h _ hnew := ⟨h.clear.append hnew, h.noDeed⟩

theorem atDeeds_carried : (outline n).Carried r (fun l => m = n → l.past n .deeds) (Elsewhere n)
    (AtDeeds n m) where
  stable l _ _ _ hl h hrely _ := ⟨h.clear, fun hm => hrely.gate ⟨l, rfl, hl hm⟩ (h.gate hm)⟩
  write _ _ _ h _ hnew := ⟨h.clear.append hnew, h.gate⟩

theorem fresh_carried : (outline n).Carried r (fun l => l.past n .deeds) (Keeps n) (Fresh n) where
  stable l ws s s' hl h hrely _ := by
    obtain ⟨row, hrow⟩ := h.deed
    have hnone : s'.db.ownedUins.get n = none := by
      rw [hrely.lockedDeed (mem_map_of_mem (f := Store.key Db) hrow)]
      exact h.noDeed
    -- nobody else has come to answer as the number without its deed
    have hgate : Gate n s'.db := hrely.gate ⟨l, rfl, hl⟩ (.inl h.noUser)
    refine ⟨h.keeps, h.deed, hnone, hgate.resolve_right ?_⟩
    simp [hnone]
  write ws s new h _ hnew := by
    obtain ⟨row, hrow⟩ := h.deed
    exact ⟨forall_mem_append.mpr ⟨h.keeps, hnew⟩, ⟨row, mem_append_left _ hrow⟩, h.noDeed, h.noUser⟩

theorem old_carried : (outline n).Carried r (fun l => l.past n .deeds) (Keeps n) (Old n) where
  stable _ _ _ _ _ h hrely _ := ⟨h.keeps, hrely.deed h.deed⟩
  write _ _ _ h _ hnew := ⟨forall_mem_append.mpr ⟨h.keeps, hnew⟩, h.deed⟩

/-- What a request that takes `m` may write. -/
def Allowed (n m : Uin) (o : Write) : Prop := (m ≠ n → Elsewhere n o) ∧ Keeps n o

theorem taking_carried {B : List Write → State → Prop}
    (hB : (outline n).Carried r (fun l => l.past n .deeds) (Keeps n) B) :
    (outline n).Carried r (fun l => m = n → l.past n .deeds) (Allowed n m) (Taking n m B) where
  stable l ws s s' hl h hrely hinv :=
    ⟨fun hm => aside_carried.stable l ws s s' trivial (h.other hm) hrely hinv,
      fun hm => hB.stable l ws s s' (hl hm) (h.self hm) hrely hinv⟩
  write ws s new h hinv hnew :=
    ⟨fun hm => (aside_carried (r := r)).write ws s new (h.other hm) hinv
        fun o ho => (hnew o ho).1 hm,
      fun hm => hB.write ws s new (h.self hm) hinv fun o ho => (hnew o ho).2⟩

/-! ## Commits -/

private theorem users_of_unlocked (h : RowKey.user n ∉ lockedRows Db ws) :
    (s.view ws).users.get n = s.db.users.get n :=
  sets_users.get_applyAll_of_notMem
    (fun _ hrow => h (mem_map_of_mem (f := Store.key Db) hrow)) s.db

private theorem ownedUins_of_unlocked (h : RowKey.deed n ∉ lockedRows Db ws) :
    (s.view ws).ownedUins.get n = s.db.ownedUins.get n :=
  sets_ownedUins.get_applyAll_of_notMem
    (fun _ hrow => h (mem_map_of_mem (f := Store.key Db) hrow)) s.db

private theorem users_of_keeps (h : ∀ o ∈ ws, Keeps n o) (hs : (s.db.users.get n).isSome) :
    ((s.view ws).users.get n).isSome := by
  rcases sets_users.get_applyAll ws s.db n with hsame | hmem
  · rwa [view, hsame]
  · rw [isSome_iff_ne_none]
    rintro hnone
    rw [view] at hnone
    rw [hnone] at hmem
    exact (h _ hmem).1 rfl

private theorem ownedUins_of_keeps (h : ∀ o ∈ ws, Keeps n o)
    (hs : (s.db.ownedUins.get n).isSome ∨ ∃ row, Write.deed n row ∈ ws) :
    ((s.view ws).ownedUins.get n).isSome := by
  have hmem : Write.deed n ((s.view ws).ownedUins.get n) ∈ ws →
      ((s.view ws).ownedUins.get n).isSome := by
    intro hmem
    rw [isSome_iff_ne_none]
    intro hnone
    rw [hnone] at hmem
    exact (h _ hmem).2 rfl
  rcases hs with hs | ⟨row, hrow⟩
  · rcases sets_ownedUins.get_applyAll ws s.db n with hsame | hlast
    · rwa [view, hsame]
    · exact hmem hlast
  · exact hmem (sets_ownedUins.get_applyAll_of_mem hrow s.db)

private theorem hist_commit (e : Ext) : (s.commit ws e).hist ≠ s.hist :=
  cons_ne_self _ _

/-- A free number has not been handed out. -/
private theorem handouts_of_free (hinv : Inv n s) (huser : s.db.users.get n = none)
    (hdeed : s.db.ownedUins.get n = none) : s.ext.handouts n = 0 := by
  have hne : s.ext.handouts n ≠ 1 := by
    intro hone
    have := hinv.held hone
    simp [Db.Held, huser, hdeed] at this
  have := hinv.once
  omega

variable {e : Ext} {cfg : Config}

/-- A commit that is not about the number. -/
theorem step_aside (h : Aside n ws s) (hinv : Inv n s) (hdeeds : ¬l.takes n .deeds)
    (he : e.handouts n = s.ext.handouts n) : (outline n).Step r l ws s (s.commit ws e) := by
  have hheld : (s.commit ws e).db.Held n ↔ s.db.Held n := by
    rw [Db.Held, commit_db, h.users, h.ownedUins]
    exact Iff.rfl
  refine ⟨⟨by rw [commit_ext, he]; exact hinv.once, fun hone => ?_⟩, .inr ?_⟩
  · rw [commit_ext, he] at hone
    exact hheld.mpr (hinv.held hone)
  · refine ⟨hist_commit e, users_of_unlocked, ownedUins_of_unlocked, ?_, ?_, ?_,
      fun htakes => absurd htakes hdeeds, ?_⟩
    · rw [commit_db, h.users]
      exact id
    · rw [commit_db, h.ownedUins]
      exact id
    · intro _ hnone
      rw [← not_isSome_iff_eq_none, commit_db, h.ownedUins, hnone]
      simp
    · intro _ _ hnone
      rw [← not_isSome_iff_eq_none, commit_db, h.users, hnone]
      simp

/-- A commit at the door of the users that hands out the number. -/
theorem step_enter {row : UserRow} (h : Clear n ws) (hinv : Inv n s)
    (huser : s.db.users.get n = none) (hdeed : s.db.ownedUins.get n = none)
    (hdeeds : ¬l.takes n .deeds) (htakes : l.takes n .users)
    (he : e.handouts n = s.ext.handouts n + 1) : (outline n).Step r l (ws ++ [.user n (some row)]) s
      (s.commit (ws ++ [.user n (some row)]) e) := by
  have hview : (s.view (ws ++ [.user n (some row)])).users.get n = some row := by
    rw [view, applyAll_concat, sets_users.set, Table.get_set_self]
  have hsame : (s.view (ws ++ [.user n (some row)])).ownedUins.get n = none := by
    rw [view, applyAll_concat, sets_ownedUins.other _ (by simp)]
    exact (h.ownedUins s).trans hdeed
  have hzero := handouts_of_free hinv huser hdeed
  refine ⟨⟨by rw [commit_ext, he, hzero], fun _ => .inl ?_⟩, .inr ?_⟩
  · rw [commit_db, hview]
    rfl
  · refine ⟨hist_commit e, users_of_unlocked, ownedUins_of_unlocked, ?_, ?_, fun _ _ => hsame,
      fun htakes => absurd htakes hdeeds, fun hno => absurd htakes hno⟩
    · rw [commit_db, hview]
      exact fun _ => rfl
    · rw [hdeed]
      exact fun h => by cases h

/-- A commit at the door of the deeds that leaves a deed of the number. -/
private theorem step_deed (hkeeps : ∀ o ∈ ws, Keeps n o)
    (hdeed : (s.db.ownedUins.get n).isSome ∨ ∃ row, Write.deed n row ∈ ws)
    (htakes : l.takes n .deeds) (honce : e.handouts n ≤ 1) :
    (outline n).Step r l ws s (s.commit ws e) := by
  have hsome := ownedUins_of_keeps hkeeps hdeed
  exact ⟨⟨honce, fun _ => .inr hsome⟩, .inr ⟨hist_commit e, users_of_unlocked,
    ownedUins_of_unlocked, users_of_keeps hkeeps, fun _ => hsome, fun hno => absurd htakes hno,
    fun _ => hsome, fun _ hno => absurd htakes hno⟩⟩

theorem step_fresh (h : Fresh n ws s) (hinv : Inv n s) (htakes : l.takes n .deeds)
    (he : e.handouts n = s.ext.handouts n + 1) : (outline n).Step r l ws s (s.commit ws e) := by
  refine step_deed h.keeps (.inr h.deed) htakes ?_
  rw [he, handouts_of_free hinv h.noUser h.noDeed]

theorem step_old (h : Old n ws s) (hinv : Inv n s) (htakes : l.takes n .deeds)
    (he : e.handouts n = s.ext.handouts n) : (outline n).Step r l ws s (s.commit ws e) :=
  step_deed h.keeps (.inl h.deed) htakes (he ▸ hinv.once)

theorem elsewhere_user (hm : m ≠ n) (row : Option UserRow) : Elsewhere n (.user m row) :=
  ⟨fun _ h => hm (Write.user.inj h).1, nofun⟩

theorem elsewhere_deed (hm : m ≠ n) (row : Option Deed) : Elsewhere n (.deed m row) :=
  ⟨nofun, fun _ h => hm (Write.deed.inj h).1⟩

@[simp] theorem elsewhere_spent (nonce : Nonce) (row : Option Time) :
    Elsewhere n (.spent nonce row) :=
  ⟨nofun, nofun⟩

@[simp] theorem elsewhere_invite (code : InviteCode) (row : Option Invite) :
    Elsewhere n (.invite code row) :=
  ⟨nofun, nofun⟩

@[simp] theorem elsewhere_hold (uin : Uin) (row : Option Hold) : Elsewhere n (.hold uin row) :=
  ⟨nofun, nofun⟩

@[simp] theorem elsewhere_listing (uin : Uin) (row : Option Listing) :
    Elsewhere n (.listing uin row) :=
  ⟨nofun, nofun⟩

/-! ## The door of the users -/

section Rules

variable {α β : Type} {p : Handler α} {f : α → Handler β} {R : β → List Write → State → Prop}

/-- A part of a request that does not touch the number. -/
theorem wp_clear (hp : p.Part (Elsewhere n) (fun _ => True)) (h : Clear n ws)
    (hf : ∀ a ws s, Clear n ws → (outline n).wp r (f a) R ws s) :
    (outline n).wp r (p.bind f) R ws s :=
  wp_part_bind (coherent n) clear_carried hp h hf

theorem wp_atDeeds (hp : p.Part (Elsewhere n) (fun l => m = n → l.past n .deeds))
    (h : AtDeeds n m ws s) (hf : ∀ a ws s, AtDeeds n m ws s → (outline n).wp r (f a) R ws s) :
    (outline n).wp r (p.bind f) R ws s :=
  wp_part_bind (coherent n) atDeeds_carried hp h hf

end Rules

theorem past_check {door : Door} {part : CheckPart}
    (h : (Label.check door n part).past n door) : m = n → (Label.check door m part).past n door :=
  fun hm => hm ▸ h

theorem past_take {door : Door} (part : TakePart) :
    m = n → (Label.take door m part).past n door := by
  rintro rfl
  cases door with
  | _ => simp

theorem wp_uinIsTaken_users (m : Uin) (exceptInvite : Option InviteCode) (ignoreHolds : Bool)
    (ws : List Write) (s : State) (h : Clear n ws) :
    (outline n).wp r (uinIsTaken .users m exceptInvite ignoreHolds)
      (fun taken ws s => Clear n ws ∧ (taken = false → AtUsers n m ws s)) ws s := by
  refine wp_clear (by simp) h fun used ws s h => ?_
  split
  · exact ⟨h, fun hf => (by cases hf)⟩
  refine wp_read_bind (coherent n) fun s' _ _ _ => ?_
  split
  · exact ⟨h, fun hf => (by cases hf)⟩
  rename_i howned
  have hat : AtUsers n m ws s' := by
    refine ⟨h, ?_⟩
    rintro rfl
    rw [← h.ownedUins s']
    simpa using howned
  -- from here on nobody gives the number away
  refine wp_part_bind (coherent n) atUsers_carried
    (liveHold_part (past_check (by simp)) _) hat fun held ws s h => ?_
  split
  · exact ⟨h.clear, fun hf => (by cases hf)⟩
  · refine wp_mono (wp_part (coherent n) atUsers_carried
      (Part.read (past_check (by simp)) _) h) fun taken ws s h => ?_
    exact ⟨h.clear, fun _ => h⟩

/-- The account is inserted only if nobody answers as the number, which it locks. -/
private theorem wp_insertUser {row : Time → UserRow} {conflict : HttpError} (h : AtUsers n n ws s) :
    (outline n).wp r (insert (.take .users n .insertUser) (·.users.get n) (.user n) row conflict)
      (fun _ ws' s' => ∃ row, ws' = ws ++ [.user n (some row)] ∧ s'.db.users.get n = none ∧
        s'.db.ownedUins.get n = none) ws s := by
  refine wp_insert (coherent n) fun s' hrely hinv hrow => ?_
  have hnow := atUsers_carried.stable _ ws s s' (past_take _) h hrely hinv
  exact ⟨_, rfl, (h.clear.users s').symm.trans hrow, hnow.noDeed rfl⟩

/-- A new account is inserted and committed under the number that was chosen. -/
theorem wp_enter {row : Time → UserRow} {conflict : HttpError} {x : Ext → Ext}
    (hx : ∀ e, (x e).handouts n = e.handouts n + if m = n then 1 else 0) (h : AtUsers n m ws s) :
    (outline n).Safe r
      ((insert (.take .users m .insertUser) (·.users.get m) (.user m) row conflict).bind fun _ =>
        .commit (.take .users m .commit) x (.ret m)) ws s := by
  by_cases hm : m = n
  · subst hm
    refine wp_seq (wp_insertUser h) ?_
    rintro _ _ s ⟨row, rfl, huser, hdeed⟩ s' hrely hinv -
    -- the row is locked, and no deed comes up while the request is past the question
    have huser' : s'.db.users.get m = none := by
      rw [hrely.lockedUser (by simp [lockedRows, Store.key, Write.key]), huser]
    have hdeed' := hrely.noDeed ⟨_, rfl, past_take _ rfl⟩ hdeed
    refine ⟨step_enter h.clear hinv huser' hdeed' (by simp) (by simp)
      ?_, trivial⟩
    rw [hx, if_pos rfl]
  · refine wp_clear (insert_part trivial fun row => elsewhere_user hm _) h.clear ?_
    intro _ ws s h s' _ hinv _
    refine ⟨step_aside h.aside hinv (by simp) ?_, trivial⟩
    rw [hx, if_neg hm, Nat.add_zero]

/-- An account that is there is written again. -/
private theorem Clear.aside_user {uin : Uin} (h : Clear n ws)
    (hrow : ((s.view ws).users.get uin).isSome) (row : UserRow) :
    Aside n (ws ++ [.user uin (some row)]) s := by
  refine ⟨fun row' hmem => ?_, fun row' hmem => ?_⟩
  · rcases mem_append.mp hmem with hmem | hmem
    · exact absurd rfl ((h _ hmem).1 row')
    · obtain ⟨rfl, rfl⟩ := Write.user.inj (mem_singleton.mp hmem)
      exact ⟨rfl, h.users s ▸ hrow⟩
  · rcases mem_append.mp hmem with hmem | hmem
    · exact absurd rfl ((h _ hmem).2 row')
    · cases mem_singleton.mp hmem

/-- A guest of whatever number becomes a resident. -/
theorem wp_convertGuest {uin : Uin} {key : KeyText} {voucher : Option Nonce}
    {reserved : Option Uin} {revoked : Bool} (h : Clear n ws) :
    (outline n).Safe r (convertGuest uin key voucher reserved revoked) ws s := by
  refine wp_clear (by simp) h fun _ ws s h => ?_
  refine wp_clear (by simp) h fun _ ws s h => ?_
  refine wp_bind.mpr (wp_update (coherent n) fun s' row _ _ hrow => ?_)
  intro s₁ hrely hinv₁ _
  have hnow := aside_carried.stable _ _ s' s₁ trivial (h.aside_user (hrow ▸ rfl) _) hrely hinv₁
  exact ⟨step_aside hnow hinv₁ (by simp) (handouts_grantEntry _ _ _), trivial⟩

theorem register_safe {till : Till} {body : RegisterIn} {env : RegisterEnv} (h : Clear n ws) :
    (outline n).Safe r (register cfg till body env) ws s := by
  refine wp_clear (by simp) h fun _ ws s h => ?_
  refine wp_clear (by simp) h fun _ ws s h => ?_
  refine wp_clear (by simp) h fun _ ws s h => ?_
  refine wp_clear (by simp) h fun _ ws s h => ?_
  split
  · exact trivial
  refine wp_clear (by simp) h fun _ ws s h => ?_
  refine wp_clear (by simp) h fun voucher ws s h => ?_
  refine wp_clear (by simp) h fun reserved ws s h => ?_
  refine wp_clear (by simp) h fun guest ws s h => ?_
  split
  · exact wp_convertGuest h
  · refine wp_seq (wp_chooseUin_of wp_uinIsTaken_users cfg h) fun uin ws s h =>
      wp_enter (fun e => ?_) h.1
    rw [handouts_hand, handouts_grantEntry]

end Handouts

end RcqServer.Numbers
