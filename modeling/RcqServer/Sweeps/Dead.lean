import RcqServer.Sweeps.Guests

/-!
# The dead-account sweep

The sweep reads up to 2000 rows that look unused, keeps those that were last seen in the first hour of
their lives, and deletes up to 500 of them in another session.  It does not look again: what a request
commits after the read does not save the account.  And `LIKE 'user-%'` matches more names than the
island gives.

So what is deleted is dead as documented as long as no request commits between the read and the last
deletion, and nobody calls themselves `user-` and then something else than a number.
-/

namespace RcqServer.Sweeps

open ReadCommitted Prog Outline List Option World Table Bool

/-! ## The sweep -/

/-- `FIRST_HOUR_SECONDS`. -/
def firstHourSeconds : ℤ := 3600

/-- `nickname LIKE 'user-%'`. -/
def likeUser (nickname : List Char) : Bool := "user-".toList.isPrefixOf nickname

variable (cfg : Config)

/-- `_CANDIDATES`. -/
def Db.deadRows (db : Db) (cutoff : ℤ) : List (Uin × User) :=
  ((db.users.select fun uin row =>
      decide (row.createdAt < cutoff) && row.residentSince.isNone && row.guestStatus.isNone &&
        likeUser row.nickname && row.avatarMediaId.isNone &&
        (db.ties.select fun t _ => t.about uin).isEmpty).insertionSort
    fun x y => x.2.createdAt ≤ y.2.createdAt).take (cfg.deadBatch * 4)

/-- `_never_came_back`. -/
def neverCameBack (row : User) : Bool := row.lastSeen - row.createdAt < firstHourSeconds

/-- The loop of `_sweep_once` over the accounts, `done` of which are deleted. -/
def deleteDead : ℕ → List Uin → Handler Unit
  | _, [] => .commitOnly .deadCommit
  | done, uin :: rest => do
    purgeUinRows .deadTies uin
    deleteUser .deadUser uin
    .onlyIf ((done + 1) % 100 = 0) (.commitOnly .deadCommit)
    deleteDead (done + 1) rest

/-- `dead_account_sweep._sweep_once`. -/
def deadAccountSweep : Handler Unit := do
  let now ← clock .clock
  let rows ← .read .deadCandidates fun db _ => db.deadRows cfg (now - span cfg.deadAfterDays)
  let uins := ((rows.filter fun r => neverCameBack r.2).map Prod.fst).take cfg.deadBatch
  .onlyIf (uins ≠ []) (deleteDead 0 uins)

/-! ## The system -/

/-- `PUT /users/me`, for the nickname and the avatar. -/
def updateMe (uin : Uin) (nickname : Option (List Char)) (avatar : Option (Option String)) :
    Handler Unit := do
  let user ← getUser uin
  .raiseIf (user = none) ⟨404, "user not found"⟩
  saveUser uin fun _ row =>
    { row with
      nickname := nickname.getD row.nickname
      avatarMediaId := avatar.getD row.avatarMediaId }
  .commitOnly .commit

/-- A request that writes a row of another table: a device, a push token, a contact, a membership, a
room, a site, a number or a report. -/
def link (t : Tie) : Handler Unit := do
  .write .link (fun _ _ => [.tie t (some ())]) fun _ _ => ()
  .commitOnly .commit

/-- A request that deletes such a row. -/
def unlink (t : Tie) : Handler Unit := do
  .write .unlink (fun db _ => ((db.ties.get t).map fun _ => Write.tie t none).toList) fun _ _ => ()
  .commitOnly .commit

/-- `DELETE /auth/account`. -/
def burn (uin : Uin) : Handler Unit := do
  let user ← getUser uin
  .raiseIf (user = none) ⟨404, "user not found"⟩
  purgeAccount uin
  .commitOnly .commit

inductive Request
  | guest (r : GuestRequest)
  | updateMe (uin : Uin) (nickname : Option (List Char)) (avatar : Option (Option String))
  | link (t : Tie)
  | unlink (t : Tie)
  | burn (uin : Uin)
  | deadAccountSweep

def handler : Request → Handler Unit
  | .guest r => guestHandler cfg r
  | .updateMe uin nickname avatar => updateMe uin nickname avatar
  | .link t => link t
  | .unlink t => unlink t
  | .burn uin => burn uin
  | .deadAccountSweep => deadAccountSweep cfg

abbrev World := ReadCommitted.World Db Ext Write Label HttpError Request Unit

/-! ## What is dead -/

/-- A nickname as the island gives them: `user-` and a number. -/
def generated (nickname : List Char) : Bool :=
  likeUser nickname && decide (nickname.drop 5 ≠ []) && (nickname.drop 5).all Char.isDigit

/-- The clauses under which an account may be deleted. -/
structure Db.Dead (db : Db) (now : ℤ) (uin : Uin) (row : User) : Prop where
  old : row.createdAt < now - span cfg.deadAfterDays
  firstHour : row.lastSeen - row.createdAt < firstHourSeconds
  neverResident : row.residentSince = none
  native : row.guestStatus = none
  nickname : generated row.nickname = true
  faceless : row.avatarMediaId = none
  alone : ∀ t, (db.ties.get t).isSome → t.about uin = false

/-- Nobody calls themselves `user-` and then something else than a number. -/
def Db.Named (db : Db) : Prop :=
  ∀ uin row, db.users.get uin = some row → likeUser row.nickname = true → generated row.nickname = true

namespace DeadSweep

variable {cfg} {r : Request} {l : Label} {ws : List Write} {s s' : State} {uin : Uin}

/-- The sweep has read its candidates and is not done. -/
def Deleting (l : Label) : Prop := l = .deadTies ∨ l = .deadUser ∨ l = .deadCommit

def outline (cfg : Config) : Outline Db Ext Write Label Request where
  Inv _ := True
  Rely _ l _ s s' := s.ext.now ≤ s'.ext.now ∧ ((∃ x ∈ l, Deleting x) → s'.db = s.db)
  Guar r _ _ s s' := s.ext.now ≤ s'.ext.now ∧ (s'.db = s.db ∨ s'.hist ≠ s.hist ∧
    (r = .deadAccountSweep → ∀ uin row, s.db.users.get uin = some row →
      s'.db.users.get uin = none → s.db.Dead cfg s.ext.now uin row))
  Start _ _ := True
  Cond _ l s := l = .deadCandidates → s.db.Named
  Apart _ _ l' _ := ∀ x ∈ l', ¬Deleting x

theorem coherent (cfg : Config) : (outline cfg).Coherent where
  rely_refl _ _ _ _ := ⟨le_rfl, fun _ => rfl⟩
  rely_trans _ _ _ _ _ _ h h' := ⟨h.1.trans h'.1, fun hl => (h'.2 hl).trans (h.2 hl)⟩
  guar_refl _ _ _ _ := ⟨le_rfl, .inl rfl⟩
  rely_of_guar := by
    rintro r l ws r' l' ws' s s' - ⟨-, hnow, hguar⟩ - hapart
    refine ⟨hnow, ?_⟩
    rintro ⟨x, hx, hdeleting⟩
    rcases hguar with hsame | ⟨hcommit, -⟩
    · exact hsame
    · exact absurd hdeleting (hapart.resolve_left hcommit x hx)

/-! ## The other requests -/

variable {α : Type}

/-- A part of a request that does not turn back the clock. -/
abbrev Timely (p : Handler α) : Prop := p.Within (fun _ => True) fun e e' => e.now ≤ e'.now

private theorem hE (e : Ext) : e.now ≤ e.now := le_rfl

theorem timely_commitOnly {l : Label} : Timely (commitOnly l) := ⟨hE, trivial⟩

theorem timely_read {l : Label} {q : Db → Ext → α} : Timely (.read l q) := Within.read hE

theorem timely_write {l : Label} {w : Db → Ext → List Write} {q : Db → Ext → α} :
    Timely (.write l w q) :=
  Within.write hE fun _ _ _ _ => trivial

theorem timely_insertUser (uin : Uin) (row : ℤ → User) : Timely (insertUser uin row) :=
  fun _ e => ⟨fun _ _ => trivial, hE e, Within.raiseIf⟩

theorem timely_saveUser (uin : Uin) (f : ℤ → User → User) : Timely (saveUser uin f) :=
  timely_write.bind fun _ => Within.raiseIf

theorem timely_refuseAs (e : Option HttpError) : Timely (refuseAs e) := by
  cases e with
  | none => exact trivial
  | some e => exact trivial

theorem timely_save (uin : Uin) (f : ℤ → User → User) :
    Timely ((saveUser uin f).bind fun _ => commitOnly .commit) :=
  (timely_saveUser uin f).bind fun _ => timely_commitOnly

theorem timely_purgeAccount (uin : Uin) : Timely (purgeAccount uin) :=
  timely_write.bind fun _ => timely_write

theorem timely_purgeIfStillEligible (limits : Limits) (uin : Uin) (kind : Kind) :
    Timely (purgeIfStillEligible cfg limits uin kind) := by
  refine timely_read.bind fun now => timely_write.bind fun user => Within.ite ?_ ?_
  · exact (timely_purgeAccount uin).bind fun _ => timely_commitOnly
  · exact trivial

theorem timely_guestSweep (limits : Limits) (later : Uin → Limits) :
    Timely (guestSweep cfg limits later) := by
  have hpurge : ∀ rows, Timely (purgeGuests cfg later rows) := by
    intro rows
    induction rows with
    | nil => exact trivial
    | cons row rest ih => exact (timely_purgeIfStillEligible _ _ _).bind fun _ => ih
  refine Within.bind ?_ fun rows => hpurge rows
  exact timely_read.bind fun _ => timely_read.bind fun _ => timely_read.bind fun _ =>
    timely_read.bind fun _ => trivial

theorem timely_guestHandler (r : GuestRequest) : Timely (guestHandler cfg r) := by
  cases r with
  | register uin nickname resident =>
    exact Within.bind (timely_insertUser uin _) fun _ => timely_commitOnly
  | guestJoin uin nickname => exact (timely_insertUser _ _).bind fun _ => timely_commitOnly
  | addGuest uin nickname => exact (timely_insertUser _ _).bind fun _ => timely_commitOnly
  | claimSeat uin => exact timely_write.bind fun _ => timely_commitOnly
  | guestSettle uin gate resident =>
    refine timely_read.bind ?_
    rintro (_ | loaded)
    · exact trivial
    · exact Within.raiseIf.bind fun _ => (timely_refuseAs gate).bind fun _ => timely_save _ _
  | residencyRedeem uin refusal =>
    refine timely_read.bind ?_
    rintro (_ | loaded)
    · exact trivial
    · exact Within.raiseIf.bind fun _ => (timely_refuseAs refusal).bind fun _ =>
        timely_save _ _
  | convertGuest uin refusal resident =>
    refine (timely_refuseAs refusal).bind fun _ => timely_read.bind ?_
    rintro (_ | loaded)
    · exact trivial
    · exact timely_save _ _
  | touchPoll uin due => exact Within.onlyIf (timely_write.bind fun _ => timely_commitOnly)
  | onSocket uin => exact timely_read.bind fun _ => Within.onlyIf (timely_save _ _)
  | ping uin => exact timely_write.bind fun _ => timely_commitOnly
  | setStatus uin =>
    exact timely_read.bind fun _ => Within.raiseIf.bind fun _ => timely_save _ _
  | guestSweep limits later => exact timely_guestSweep limits later
  | tick seconds => exact Within.effect fun _ e => Int.le_add_of_nonneg_right (by omega)

theorem timely_handler (r : Request) (hr : r ≠ .deadAccountSweep) : Timely (handler cfg r) := by
  cases r with
  | guest r => exact timely_guestHandler r
  | updateMe uin nickname avatar =>
    exact timely_read.bind fun _ => Within.raiseIf.bind fun _ => timely_save _ _
  | link t => exact timely_write.bind fun _ => timely_commitOnly
  | unlink t => exact timely_write.bind fun _ => timely_commitOnly
  | burn uin =>
    exact timely_read.bind fun _ => Within.raiseIf.bind fun _ =>
      (timely_purgeAccount uin).bind fun _ => timely_commitOnly
  | deadAccountSweep => exact absurd rfl hr

/-- Nothing is asked of the others. -/
theorem framed_other (hr : r ≠ .deadAccountSweep) :
    (outline cfg).Framed r (fun _ => True) (fun e e' => e.now ≤ e'.now) fun _ _ => True where
  stable _ _ _ _ _ _ _ := trivial
  stmt _ _ _ _ _ _ _ _ he := ⟨⟨trivial, he, .inl rfl⟩, trivial⟩
  commit _ _ _ _ _ _ he :=
    ⟨⟨trivial, he, .inr ⟨cons_ne_self _ _, fun h => absurd h hr⟩⟩, trivial⟩
  rollback _ _ _ := trivial

/-! ## Deleting -/

/-- Writes that only delete. -/
def Deletions (ws : List Write) : Prop :=
  ∀ o ∈ ws, (∃ uin, o = .user uin none) ∨ ∃ t, o = .tie t none

theorem Deletions.append {new : List Write} (h : Deletions ws) (hnew : Deletions new) :
    Deletions (ws ++ new) :=
  fun o ho => (mem_append.mp ho).elim (h o) (hnew o)

variable {rest : List Uin} {db : Db} {row : User}

/-- An account that was there before the deletions. -/
theorem Deletions.user (h : Deletions ws)
    (hrow : (applyAll ws db).users.get uin = some row) : db.users.get uin = some row := by
  rcases sets_users.get_applyAll ws db uin with hsame | hmem
  · exact hsame.symm.trans hrow
  · rw [hrow] at hmem
    rcases h _ hmem with ⟨u, heq⟩ | ⟨t, heq⟩
    · cases heq
    · cases heq

theorem Deletions.tie (h : Deletions ws) {t : Tie}
    (ht : ((applyAll ws db).ties.get t).isSome) : (db.ties.get t).isSome := by
  rcases sets_ties.get_applyAll ws db t with hsame | hmem
  · exact hsame ▸ ht
  · obtain ⟨u, hu⟩ := isSome_iff_exists.mp ht
    rw [hu] at hmem
    rcases h _ hmem with ⟨u, heq⟩ | ⟨t, heq⟩
    · cases heq
    · cases heq

theorem dead_later {t t' : ℤ} (h : db.Dead cfg t uin row) (ht : t ≤ t') : db.Dead cfg t' uin row :=
  { h with old := lt_of_lt_of_le h.old (by omega) }

/-- Whoever is dead is dead when other rows are gone. -/
theorem dead_deletions {t : ℤ} (hws : Deletions ws)
    (h : db.Dead cfg t uin row) : (applyAll ws db).Dead cfg t uin row :=
  { h with alone := fun t ht => h.alone t (hws.tie ht) }

/-- All these accounts are dead, if they are there at all. -/
def AllDead (cfg : Config) (uins : List Uin) (s : State) : Prop :=
  ∀ uin ∈ uins, ∀ row, s.db.users.get uin = some row → s.db.Dead cfg s.ext.now uin row

/-- In the middle of the loop: what is pending deletes dead accounts, and `rest` are dead. -/
structure Doomed (cfg : Config) (rest : List Uin) (ws : List Write) (s : State) : Prop where
  deletions : Deletions ws
  gone : ∀ uin row, Write.user uin none ∈ ws → s.db.users.get uin = some row →
    s.db.Dead cfg s.ext.now uin row
  left : AllDead cfg rest s

theorem Doomed.stable (h : Doomed cfg rest ws s) (hl : Deleting l)
    (hrely : (outline cfg).Rely r (some l) ws s s') : Doomed cfg rest ws s' := by
  have hdb : s'.db = s.db := hrely.2 ⟨l, rfl, hl⟩
  refine ⟨h.deletions, fun uin row hmem hrow => ?_, fun uin hu row hrow => ?_⟩
  · rw [hdb] at hrow ⊢
    exact dead_later (h.gone uin row hmem hrow) hrely.1
  · rw [hdb] at hrow ⊢
    exact dead_later (h.left uin hu row hrow) hrely.1

/-- The commit of such deletions. -/
theorem Doomed.step (h : Doomed cfg rest ws s) :
    (outline cfg).Step r l ws s (s.commit ws s.ext) := by
  refine ⟨trivial, le_rfl, .inr ⟨cons_ne_self _ _, fun _ uin row hrow hgone => ?_⟩⟩
  rcases sets_users.get_applyAll ws s.db uin with hsame | hmem
  · have hstill : (s.view ws).users.get uin = some row := hsame.trans hrow
    rw [Shared.commit_db, hstill] at hgone
    cases hgone
  · rw [Shared.commit_db] at hgone
    exact h.gone uin row (hgone ▸ hmem) hrow

theorem Doomed.commit (h : Doomed cfg rest ws s) : Doomed cfg rest [] (s.commit ws s.ext) := by
  refine ⟨fun _ ho => absurd ho not_mem_nil, fun _ _ hmem => absurd hmem not_mem_nil, ?_⟩
  intro uin hu row hrow
  exact dead_deletions h.deletions (h.left uin hu row (h.deletions.user hrow))

theorem wp_commitDead {Q : Unit → List Write → State → Prop}
    (h : Doomed cfg rest ws s) (hQ : ∀ s', Doomed cfg rest [] s' → Q () [] s') :
    (outline cfg).wp r (commitOnly .deadCommit : Handler Unit) Q ws s := by
  intro s' hrely _ _
  have hnow := h.stable (.inr (.inr rfl)) hrely
  exact ⟨hnow.step, hQ _ hnow.commit⟩

/-- The deletions of one account. -/
theorem wp_deleteOne (h : Doomed cfg (uin :: rest) ws s) :
    (outline cfg).wp r ((purgeUinRows .deadTies uin).bind fun _ => deleteUser .deadUser uin)
      (fun _ ws s => Doomed cfg rest ws s) ws s := by
  have hties : ∀ rows : List (Tie × Unit), Deletions (rows.map fun r => .tie r.1 none) := by
    intro rows o ho
    obtain ⟨r, -, rfl⟩ := mem_map.mp ho
    exact .inr ⟨r.1, rfl⟩
  refine wp_seq (Q := fun _ ws s => Doomed cfg (uin :: rest) ws s)
    (wp_write (coherent cfg) fun s' hrely _ _ => ?_) fun _ ws s h => ?_
  · have hnow := h.stable (.inl rfl) hrely
    refine ⟨hnow.deletions.append (hties _), fun u row hmem hrow => ?_, hnow.left⟩
    rcases mem_append.mp hmem with hmem | hmem
    · exact hnow.gone u row hmem hrow
    · obtain ⟨t, -, heq⟩ := mem_map.mp hmem
      cases heq
  · refine wp_write (coherent cfg) fun s' hrely _ _ => ?_
    have hnow := h.stable (.inr (.inl rfl)) hrely
    have hrest : AllDead cfg rest s' := fun u hu => hnow.left u (mem_cons_of_mem _ hu)
    refine ⟨hnow.deletions.append (Deletions.append ?_ (hties _)), fun u row hmem hrow => ?_, hrest⟩
    · intro o ho
      obtain ⟨_, -, rfl⟩ := map_eq_some_iff.mp (mem_toList.mp ho)
      exact .inl ⟨uin, rfl⟩
    · rcases mem_append.mp hmem with hmem | hmem
      · exact hnow.gone u row hmem hrow
      rcases mem_append.mp hmem with hmem | hmem
      · obtain ⟨_, -, heq⟩ := map_eq_some_iff.mp (mem_toList.mp hmem)
        cases heq
        exact hnow.left uin mem_cons_self row hrow
      · obtain ⟨t, -, heq⟩ := mem_map.mp hmem
        cases heq

theorem wp_deleteDead {done : ℕ} (h : Doomed cfg rest ws s) :
    (outline cfg).Safe r (deleteDead done rest) ws s := by
  induction rest generalizing done ws s with
  | nil => exact wp_commitDead h fun _ _ => trivial
  | cons uin rest ih =>
    refine wp_bind.mpr (wp_mono (wp_bind.mp (wp_deleteOne h)) fun _ ws s h => ?_)
    refine wp_seq h fun _ ws s h => ?_
    refine wp_seq (Q := fun _ ws s => Doomed cfg rest ws s) ?_ fun _ ws s h => ih h
    unfold onlyIf
    split
    · exact wp_commitDead h fun _ h => h
    · exact h

/-- The candidates are dead when they are read. -/
theorem allDead_deadRows {cutoff : ℤ} (hnamed : s.db.Named)
    (hcutoff : cutoff ≤ s.ext.now - span cfg.deadAfterDays) :
    AllDead cfg ((((s.db.deadRows cfg cutoff).filter fun r => neverCameBack r.2).map Prod.fst).take
      cfg.deadBatch) s := by
  intro uin hu row hrow
  obtain ⟨⟨u, row'⟩, hmem, rfl⟩ := mem_map.mp (mem_of_mem_take hu)
  obtain ⟨hmem, hback⟩ := mem_filter.mp hmem
  have hsel := (mem_insertionSort _).mp (mem_of_mem_take hmem)
  obtain ⟨hrow', hclauses⟩ := mem_select.mp hsel
  cases hrow'.symm.trans hrow
  simp only [and_eq_true, decide_eq_true_eq, isNone_iff_eq_none,
    List.isEmpty_iff] at hclauses
  obtain ⟨⟨⟨⟨⟨hold, hresident⟩, hnative⟩, hname⟩, hface⟩, hties⟩ := hclauses
  refine ⟨lt_of_lt_of_le hold hcutoff, of_decide_eq_true hback, hresident, hnative,
    hnamed _ _ hrow hname, hface, fun t ht => ?_⟩
  -- a row that names the account would have been found
  refine eq_false_iff.mpr fun habout => ?_
  obtain ⟨x, hx⟩ := isSome_iff_exists.mp ht
  have hmem : (t, x) ∈ s.db.ties.select fun t _ => t.about u := mem_select.mpr ⟨hx, habout⟩
  rw [hties] at hmem
  cases hmem

theorem deadAccountSweep_safe (s : State) : (outline cfg).Safe r (deadAccountSweep cfg) [] s := by
  refine wp_read_bind (coherent cfg) fun s₀ _ _ _ => ?_
  refine wp_read_bind (coherent cfg) fun s₁ hrely _ hcond => ?_
  unfold onlyIf
  dsimp only
  split
  · refine wp_deleteDead ⟨fun _ ho => absurd ho not_mem_nil,
      fun _ _ hmem => absurd hmem not_mem_nil, ?_⟩
    refine allDead_deadRows (hcond rfl) ?_
    exact Int.sub_le_sub_right hrely.1 _
  · exact trivial

theorem handler_safe (cfg : Config) (r : Request) (s : State) :
    (outline cfg).Safe r (handler cfg r) [] s := by
  by_cases hr : r = .deadAccountSweep
  · subst hr
    exact deadAccountSweep_safe s
  · exact wp_within (framed_other hr) (timely_handler r hr) trivial

instance (l : Label) : Decidable (Deleting l) :=
  inferInstanceAs (Decidable (l = .deadTies ∨ l = .deadUser ∨ l = .deadCommit))

end DeadSweep

/-! ## Conditions on a schedule -/

/-- No request commits while another one, a sweep, is between its read and its last deletion. -/
def SweepsAlone (w : World) : Action Request → Prop
  | .step k => w.committing k → ∀ j < w.sessions.length, j ≠ k → ∀ y ∈ w.upcoming j,
      ¬DeadSweep.Deleting y.2
  | _ => True

/-- When a sweep reads its candidates, nobody calls themselves `user-` and then something else than a
number. -/
def ReadsGenerated (w : World) : Action Request → Prop
  | .step k => ∀ y ∈ w.upcoming k, y.2 = .deadCandidates → w.shared.db.Named
  | _ => True

theorem named_iff {db : Db} : db.Named ↔
    db.users.select (fun _ row => likeUser row.nickname && !generated row.nickname) = [] := by
  rw [eq_nil_iff_forall_not_mem]
  constructor
  · rintro h ⟨uin, row⟩ hmem
    obtain ⟨hrow, hname⟩ := mem_select.mp hmem
    rw [and_eq_true, not_eq_true'] at hname
    exact false_ne_true (hname.2.symm.trans (h uin row hrow hname.1))
  · intro h uin row hrow hlike
    by_contra hgenerated
    refine h (uin, row) (mem_select.mpr ⟨hrow, ?_⟩)
    rw [and_eq_true, not_eq_true']
    exact ⟨hlike, eq_false_iff.mpr hgenerated⟩

instance (db : Db) : Decidable db.Named := decidable_of_iff _ named_iff.symm

instance : DecidableRel SweepsAlone := by
  rintro w (_ | _) <;> unfold SweepsAlone <;> infer_instance

instance : DecidableRel ReadsGenerated := by
  rintro w (_ | _) <;> unfold ReadsGenerated <;> infer_instance

private theorem allows_of_alone {w : World} {a : Action Request} (h : SweepsAlone w a)
    (hnamed : ReadsGenerated w a) : (DeadSweep.outline cfg).Allows w a := by
  cases a with
  | start r => exact trivial
  | kill k => exact trivial
  | step k =>
    intro r p ws hk
    refine ⟨fun l hl => hnamed _ (upcoming_of_running hk hl), ?_⟩
    intro hcommit l hl j r' p' ws' hj hother l' hl'
    exact h (committing_of_running hk hcommit) j
      (List.getElem?_eq_some_iff.mp hother).1 hj _ (upcoming_of_running hother hl')

/-- **The sweep deletes dead accounts**, in every run in which no request commits while a sweep is
between its read and its last deletion, and nobody is called `user-` and then something else than a
number when a sweep reads its candidates. -/
theorem dead_sweep_deletes_dead {db : Db} {now : ℤ} {w w' : World} {k : ℕ} {l : Label} {uin : Uin}
    {row : User} (hrun : Run (handler cfg) (fun w a => SweepsAlone w a ∧ ReadsGenerated w a)
      (.fresh db ⟨now⟩) w) (halone : SweepsAlone w (.step k)) (hnamed : ReadsGenerated w (.step k))
    (hsweep : w.upcoming k = some (.deadAccountSweep, l))
    (hstep : w.next (handler cfg) (.step k) = some w')
    (hrow : w.shared.db.users.get uin = some row) (hgone : w'.shared.db.users.get uin = none) :
    w.shared.db.Dead cfg w.shared.ext.now uin row := by
  have hruns := Run.mono (fun _ _ h => allows_of_alone cfg h.1 h.2) hrun
  have hsafe := fun r s (_ : True) (_ : True) => DeadSweep.handler_safe cfg r s
  rcases step_of_run (DeadSweep.coherent cfg) hsafe trivial hruns
    (allows_of_alone cfg halone hnamed) hstep with hsame | ⟨r, l', ws, hup, -, hdone⟩
  · rw [hsame, hrow] at hgone
    cases hgone
  · cases hsweep.symm.trans hup
    rcases hdone.guar.2 with hsame | ⟨-, hdead⟩
    · rw [hsame, hrow] at hgone
      cases hgone
    · exact hdead rfl uin row hrow hgone

/-! ### Accounts that are not dead -/

/-- An account that was made forty days ago and has not been used. -/
abbrev unusedAccount (nickname : String) : World :=
  .fresh ⟨(∅ : Table Uin User).set 7
    (some ⟨nickname.toList, none, 0, 0, none, none, none, false, false⟩), ∅⟩ ⟨40 * 86400⟩

/-- The sweep, up to its commit. -/
def sweepSchedule : List (Action Request) := .start Request.deadAccountSweep :: steps 0 4

/-- The same, but after the read of the candidates the account gets a picture. -/
def lateAvatarSchedule : List (Action Request) :=
  .start Request.deadAccountSweep :: steps 0 2 ++
    .start (Request.updateMe 7 none (some (some "picture"))) :: steps 1 4 ++ steps 0 2

/-- The request is a sweep of dead accounts. -/
def Request.sweeps : Request → Bool
  | .deadAccountSweep => true
  | _ => false

/-- The next step is a sweep's and takes away the account 7, of which `p` holds. -/
def TakesAway (w : World) (p : User → Prop) : Prop :=
  ∃ l w' row, w.upcoming 0 = some (.deadAccountSweep, l) ∧
    w.next (handler defaults) (.step 0) = some w' ∧
    w.shared.db.users.get 7 = some row ∧ w'.shared.db.users.get 7 = none ∧ p row

private theorem takesAway_of_eval {w : World} {p : User → Prop} [DecidablePred p]
    (hup : (w.upcoming 0).any (fun x => x.1.sweeps) = true)
    (hnext : (w.next (handler defaults) (.step 0)).any
      (fun w' => (w'.shared.db.users.get 7).isNone) = true)
    (hrow : (w.shared.db.users.get 7).any (fun row => decide (p row)) = true) : TakesAway w p := by
  obtain ⟨⟨r, l⟩, hup, hsweeps⟩ := (any_eq_true _ _).mp hup
  obtain ⟨w', hnext, hgone⟩ := (any_eq_true _ _).mp hnext
  obtain ⟨row, hrow, hp⟩ := (any_eq_true _ _).mp hrow
  cases r with
  | deadAccountSweep =>
    exact ⟨l, w', row, hup, hnext, hrow, isNone_iff_eq_none.mp hgone, of_decide_eq_true hp⟩
  | _ => cases hsweeps

theorem dead_sweep_deletes_unused :
    let w := (unusedAccount "user-1234").play (handler defaults) sweepSchedule
    TakesAway w fun row => w.shared.db.Dead defaults w.shared.ext.now 7 row := by
  have hdeletes : TakesAway ((unusedAccount "user-1234").play (handler defaults) sweepSchedule)
      fun _ => True :=
    takesAway_of_eval (by decide +kernel) (by decide +kernel) (by decide +kernel)
  obtain ⟨l, w', row, hup, hnext, hrow, hgone, -⟩ := hdeletes
  have hrun : Run (handler defaults) (fun w a => SweepsAlone w a ∧ ReadsGenerated w a)
      (unusedAccount "user-1234")
      ((unusedAccount "user-1234").play (handler defaults) sweepSchedule) :=
    .of_play _ (by decide +kernel)
  exact ⟨l, w', row, hup, hnext, hrow, hgone, dead_sweep_deletes_dead defaults hrun
    (by decide +kernel) (by decide +kernel) hup hnext hrow hgone⟩

/-- An account with a name of its own is deleted, and an account with a picture. -/
theorem dead_sweep_deletes_living :
    (∃ w, Run (handler defaults) (fun w a => SweepsAlone w a) (unusedAccount "user-friend") w ∧
      TakesAway w fun row => generated row.nickname = false) ∧
    ∃ w, Run (handler defaults) (fun w a => ReadsGenerated w a) (unusedAccount "user-1234") w ∧
      TakesAway w fun row => row.avatarMediaId = some "picture" :=
  ⟨⟨_, .of_play sweepSchedule (by decide +kernel),
      takesAway_of_eval (by decide +kernel) (by decide +kernel) (by decide +kernel)⟩,
    ⟨_, .of_play lateAvatarSchedule (by decide +kernel),
      takesAway_of_eval (by decide +kernel) (by decide +kernel) (by decide +kernel)⟩⟩

end RcqServer.Sweeps
